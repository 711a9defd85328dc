import GribCatalog.Axis.Kind
import GribCatalog.Axis.Value

/-!
A dimension says which value a record has on an axis and in which order the axis lists its values.
-/

namespace GribCatalog

inductive ExtractFault
  | missing (what : String)
  | unsupported (what : String)
  | invalid (what : String)
deriving DecidableEq, Repr

def ExtractFault.message : ExtractFault → String
  | missing what => "missing value: " ++ what
  | unsupported what => "unsupported value: " ++ what
  | invalid what => "invalid value: " ++ what

structure Dimension (ρ : Type) where
  name : String
  kind : AxisKind
  extract : ρ → Except ExtractFault AxisValue
  order : AxisValue → AxisValue → Ordering := AxisValue.order

namespace Dimension

variable {ρ : Type}

def le (d : Dimension ρ) (a b : AxisValue) : Bool :=
  (d.order a b).isLE

def sort (d : Dimension ρ) (values : List AxisValue) : List AxisValue :=
  values.mergeSort d.le

def fault? (d : Dimension ρ) (record : ρ) : Option ExtractFault :=
  match d.extract record with
  | .ok _ => none
  | .error e => some e

end Dimension

end GribCatalog
