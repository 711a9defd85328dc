import GribCatalog.Axis.Basic
import GribCatalog.Space.Fault

/-!
Making an axis: its values are collected first, each once, and then sorted and frozen. Until it is
frozen an axis has no indices, and after that it takes no values.
-/

namespace GribCatalog

structure Gathering (ρ : Type) where
  dimension : Dimension ρ
  values : List AxisValue := []

namespace Gathering

variable {ρ : Type}

def add (g : Gathering ρ) (v : AxisValue) : Gathering ρ :=
  { g with values := g.values.insert v }

def offer (g : Gathering ρ) (record : ρ) : Gathering ρ :=
  match g.dimension.extract record with
  | .ok v => g.add v
  | .error _ => g

/-- Adds the values of an axis, which has to be of the dimension's kind. -/
def addAll (g : Gathering ρ) (a : Axis) : Except IndexFault (Gathering ρ) :=
  if a.kind = g.dimension.kind then .ok (a.values.foldl add g)
  else .error (.mismatch g.dimension.kind a.kind)

def axis (g : Gathering ρ) : Axis :=
  ⟨g.dimension.name, g.dimension.kind, g.dimension.sort g.values⟩

end Gathering

inductive Collector (ρ : Type)
  | gathering (g : Gathering ρ)
  | finished (dimension : Dimension ρ) (axis : Axis)

namespace Collector

variable {ρ : Type}

def start (d : Dimension ρ) : Collector ρ :=
  gathering { dimension := d }

def dimension : Collector ρ → Dimension ρ
  | gathering g => g.dimension
  | finished d _ => d

def isFinished : Collector ρ → Bool
  | gathering _ => false
  | finished _ _ => true

def size : Collector ρ → Nat
  | gathering g => g.values.length
  | finished _ a => a.size

def axis? : Collector ρ → Option Axis
  | gathering _ => none
  | finished _ a => some a

def phaseFault (c : Collector ρ) (op : CollectorOp) : IndexFault :=
  .phase c.dimension.name op

/-- Adds the value of a record. A record without one changes nothing and its fault is returned. -/
def addRecord (c : Collector ρ) (record : ρ) :
    Except IndexFault (Option ExtractFault × Collector ρ) :=
  match c with
  | gathering g => .ok (g.dimension.fault? record, gathering (g.offer record))
  | finished .. => .error (c.phaseFault .addRecord)

def addValue (c : Collector ρ) (v : AxisValue) : Except IndexFault (Collector ρ) :=
  match c with
  | gathering g => .ok (gathering (g.add v))
  | finished .. => .error (c.phaseFault .addValue)

def addAll (c : Collector ρ) (a : Axis) : Except IndexFault (Collector ρ) :=
  match c with
  | gathering g => (g.addAll a).map gathering
  | finished .. => .error (c.phaseFault .addAll)

def finish (c : Collector ρ) : Except IndexFault (Axis × Collector ρ) :=
  match c with
  | gathering g => .ok (g.axis, finished g.dimension g.axis)
  | finished .. => .error (c.phaseFault .finish)

def indexOf (c : Collector ρ) (record : ρ) : Except IndexFault (Option Nat) :=
  match c with
  | gathering _ => .error (c.phaseFault .indexOf)
  | finished d a =>
    match d.extract record with
    | .ok v => .ok (a.index? v)
    | .error e => .error (.extraction d.name e)

def indexOfValue (c : Collector ρ) (v : AxisValue) : Except IndexFault (Option Nat) :=
  match c with
  | gathering _ => .error (c.phaseFault .indexOfValue)
  | finished _ a => .ok (a.index? v)

end Collector

end GribCatalog
