import GribCatalog.Proofs.Axis

/-! Collectors in use. Requests come in any order, some too early and some too late, and
the collector is asked on after a request that failed. The first request to finish divides a run in
two: adding belongs before it and looking up after it, and from it on nothing changes. -/

namespace GribCatalog

variable {ρ : Type}

inductive Request (ρ : Type)
  | addRecord (record : ρ)
  | addValue (v : AxisValue)
  | addAll (a : Axis)
  | finish
  | indexOf (record : ρ)
  | indexOfValue (v : AxisValue)
  | axis

/-- The operation that a request is, unless it is one that every phase has. -/
def Request.op? : Request ρ → Option CollectorOp
  | addRecord _ => some .addRecord
  | addValue _ => some .addValue
  | addAll _ => some .addAll
  | finish => some .finish
  | indexOf _ => some .indexOf
  | indexOfValue _ => some .indexOfValue
  | axis => none

inductive Answer
  | added
  | skipped (fault : ExtractFault)
  | finished (a : Axis)
  | index (i : Option Nat)
  | axis (a : Option Axis)

namespace Collector

/-- A collector that was asked for something it refused is the collector that was asked. -/
def settle (c : Collector ρ) :
    Except IndexFault (Answer × Collector ρ) → Except IndexFault Answer × Collector ρ
  | .ok (answer, next) => (.ok answer, next)
  | .error fault => (.error fault, c)

/-- The answer to a request, and the collector that the next request is put to. -/
def respond (c : Collector ρ) : Request ρ → Except IndexFault Answer × Collector ρ
  | .addRecord record => c.settle <| (c.addRecord record).map fun (fault?, next) =>
      (fault?.elim .added .skipped, next)
  | .addValue v => c.settle <| (c.addValue v).map fun next => (.added, next)
  | .addAll a => c.settle <| (c.addAll a).map fun next => (.added, next)
  | .finish => c.settle <| c.finish.map fun (a, next) => (.finished a, next)
  | .indexOf record => c.settle <| (c.indexOf record).map fun i => (.index i, c)
  | .indexOfValue v => c.settle <| (c.indexOfValue v).map fun i => (.index i, c)
  | .axis => (.ok (.axis c.axis?), c)

def serve (c : Collector ρ) (requests : List (Request ρ)) : Collector ρ :=
  requests.foldl (fun c request => (c.respond request).2) c

/-! ### The two phases -/

theorem respond_gathering (g : Gathering ρ) (request : Request ρ) :
    (gathering g).respond request = match request with
      | .addRecord record =>
        match g.dimension.extract record with
        | .ok v => (.ok .added, gathering (g.add v))
        | .error fault => (.ok (.skipped fault), gathering g)
      | .addValue v => (.ok .added, gathering (g.add v))
      | .addAll a =>
        if a.kind = g.dimension.kind then
          (.ok .added, gathering (a.values.foldl Gathering.add g))
        else (.error (.mismatch g.dimension.kind a.kind), gathering g)
      | .finish => (.ok (.finished g.axis), finished g.dimension g.axis)
      | .indexOf _ => (.error (.phase g.dimension.name .indexOf), gathering g)
      | .indexOfValue _ => (.error (.phase g.dimension.name .indexOfValue), gathering g)
      | .axis => (.ok (.axis none), gathering g) := by
  cases request with
  | addRecord record =>
    simp only [respond, addRecord, Dimension.fault?, Gathering.offer]
    cases g.dimension.extract record <;> rfl
  | addAll a =>
    simp only [respond, addAll, Gathering.addAll]
    split <;> rfl
  | _ => rfl

theorem respond_finished (d : Dimension ρ) (a : Axis) (request : Request ρ) :
    (finished d a).respond request = (match request with
      | .addRecord _ => .error (.phase d.name .addRecord)
      | .addValue _ => .error (.phase d.name .addValue)
      | .addAll _ => .error (.phase d.name .addAll)
      | .finish => .error (.phase d.name .finish)
      | .indexOf record =>
        match d.extract record with
        | .ok v => .ok (.index (a.index? v))
        | .error fault => .error (.extraction d.name fault)
      | .indexOfValue v => .ok (.index (a.index? v))
      | .axis => .ok (.axis (some a)), finished d a) := by
  cases request with
  | indexOf record =>
    simp only [respond, indexOf]
    cases d.extract record <;> rfl
  | _ => rfl

/-! ### Requests as they change a collector in place -/

/-- Work on one collector. What has been done to it by the time that a fault is met stays done. -/
abbrev Use (ρ : Type) := ExceptT IndexFault (StateM (Collector ρ))

def whileGathering (op : CollectorOp) : Use ρ (Gathering ρ) := do
  match ← get with
  | gathering g => return g
  | finished d _ => throw (.phase d.name op)

def onceFinished (op : CollectorOp) : Use ρ (Dimension ρ × Axis) := do
  match ← get with
  | gathering g => throw (.phase g.dimension.name op)
  | finished d a => return (d, a)

/-- The steps of a request, each as it is taken. Finishing takes the values out of the collector
before it puts the axis there, and a record is read before the phase is looked at. -/
def perform : Request ρ → Use ρ Answer
  | .addRecord record => do
    let value := (← get).dimension.extract record
    let g ← whileGathering .addRecord
    match value with
    | .ok v =>
      set (gathering (g.add v))
      return .added
    | .error fault => return .skipped fault
  | .addValue v => do
    let g ← whileGathering .addValue
    set (gathering (g.add v))
    return .added
  | .addAll a => do
    let kind := (← get).dimension.kind
    let g ← whileGathering .addAll
    if a.kind = kind then
      set (gathering (a.values.foldl Gathering.add g))
      return .added
    else
      throw (.mismatch kind a.kind)
  | .finish => do
    let g ← whileGathering .finish
    set (gathering { g with values := [] })
    let d := (← get).dimension
    let a : Axis := ⟨d.name, d.kind, d.sort g.values⟩
    set (finished d a)
    return .finished a
  | .indexOf record => do
    let (d, a) ← onceFinished .indexOf
    match d.extract record with
    | .ok v => return .index (a.index? v)
    | .error fault => throw (.extraction d.name fault)
  | .indexOfValue v => do
    let (_, a) ← onceFinished .indexOfValue
    return .index (a.index? v)
  | .axis => return .axis (← get).axis?

section Run

variable {α β : Type} (c : Collector ρ)

theorem run_bind (x : Use ρ α) (f : α → Use ρ β) : (x >>= f).run.run c =
    match x.run.run c with
    | (.ok a, next) => (f a).run.run next
    | (.error fault, next) => (.error fault, next) := by
  rw [ExceptT.run_bind, StateT.run_bind]
  rcases x.run.run c with ⟨_ | _, _⟩ <;> rfl

theorem run_get : (get : Use ρ (Collector ρ)).run.run c = (.ok c, c) := rfl

theorem run_whileGathering (op : CollectorOp) (g : Gathering ρ) :
    (whileGathering op).run.run (gathering g) = (.ok g, gathering g) := rfl

theorem run_onceFinished (op : CollectorOp) (d : Dimension ρ) (a : Axis) :
    (onceFinished op).run.run (finished d a) = (.ok (d, a), finished d a) := rfl

/-- No request loses or half changes a collector on the way. -/
theorem run_perform (request : Request ρ) : (perform request).run.run c = c.respond request := by
  cases c with
  | gathering g =>
    rw [respond_gathering]
    cases request with
    | addRecord record =>
      simp only [perform, run_bind, run_get, run_whileGathering, dimension]
      cases g.dimension.extract record <;> rfl
    | addAll a =>
      simp only [perform, run_bind, run_get, run_whileGathering]
      split
      · next h => exact (if_pos (show a.kind = g.dimension.kind from h)).symm
      · next h => exact (if_neg (show ¬ a.kind = g.dimension.kind from h)).symm
    | _ => rfl
  | finished d a =>
    rw [respond_finished]
    cases request with
    | indexOf record =>
      simp only [perform, run_bind, run_onceFinished]
      cases d.extract record <;> rfl
    | _ => rfl

end Run

/-! ### Runs -/

theorem serve_finished (d : Dimension ρ) (a : Axis) (requests : List (Request ρ)) :
    (finished d a).serve requests = finished d a := by
  induction requests with
  | nil => rfl
  | cons request requests ih =>
    rw [serve, List.foldl_cons, respond_finished]
    exact ih

theorem exists_gathering (g : Gathering ρ) {request : Request ρ} (h : request ≠ .finish) :
    ∃ next : Gathering ρ, ((gathering g).respond request).2 = gathering next ∧
      next.dimension = g.dimension := by
  rw [respond_gathering]
  cases request with
  | addRecord record =>
    dsimp only
    cases g.dimension.extract record with
    | ok v => exact ⟨g.add v, rfl, rfl⟩
    | error fault => exact ⟨g, rfl, rfl⟩
  | addValue v => exact ⟨g.add v, rfl, rfl⟩
  | addAll a =>
    by_cases hkind : a.kind = g.dimension.kind
    · exact ⟨a.values.foldl Gathering.add g, by simp only [if_pos hkind],
        Gathering.foldl_add_dimension a.values g⟩
    · exact ⟨g, by simp only [if_neg hkind], rfl⟩
  | finish => exact absurd rfl h
  | indexOf _ | indexOfValue _ | axis => exact ⟨g, rfl, rfl⟩

/-- The phase after a run is told by whether the run had a request to finish. -/
theorem serve_gathering (g : Gathering ρ) (requests : List (Request ρ)) :
    (.finish ∉ requests ∧ ∃ next, (gathering g).serve requests = gathering next ∧
      next.dimension = g.dimension) ∨
    (.finish ∈ requests ∧ ∃ a, (gathering g).serve requests = finished g.dimension a) := by
  induction requests generalizing g with
  | nil => exact .inl ⟨List.not_mem_nil, g, rfl, rfl⟩
  | cons request requests ih =>
    have hstep : (gathering g).serve (request :: requests) =
        ((gathering g).respond request).2.serve requests := rfl
    rw [hstep, List.mem_cons]
    by_cases hfinish : request = .finish
    · subst hfinish
      exact .inr ⟨.inl rfl, g.axis, serve_finished g.dimension g.axis requests⟩
    · obtain ⟨next, hnext, hdimension⟩ := exists_gathering g hfinish
      rw [hnext, ← hdimension]
      simpa [Ne.symm hfinish] using ih next

/-- What a request comes to, by whether the collector had been finished: a request to finish works
once, what comes too early or too late is refused, and what fails leaves the collector as it was.
The axis of the request that finishes a collector answers for it ever after. -/
structure Phased (d : Dimension ρ) (closed : Prop) (c : Collector ρ) (request : Request ρ)
    (answer : Except IndexFault Answer) (next : Collector ρ) : Prop where
  finish : request = .finish → ((∃ a, answer = .ok (.finished a)) ↔ ¬ closed)
  refused : ∀ op, request.op? = some op →
    (answer = .error (.phase d.name op) ↔ (op.isQuery ↔ ¬ closed))
  axis : request = .axis → ¬ closed → answer = .ok (.axis none)
  failed : ∀ fault, answer = .error fault → next = c
  skipped : ∀ fault, answer = .ok (.skipped fault) → next = c
  fixed : ∀ a, answer = .ok (.finished a) → ∀ later, next.serve later = next ∧
    next.respond .axis = (.ok (.axis (some a)), next) ∧
    ∀ v, next.respond (.indexOfValue v) = (.ok (.index (a.index? v)), next)

theorem phased_gathering (g : Gathering ρ) (request : Request ρ) {closed : Prop} (h : ¬ closed) :
    Phased g.dimension closed (gathering g) request ((gathering g).respond request).1
      ((gathering g).respond request).2 := by
  rw [respond_gathering]
  cases request with
  | addRecord record =>
    dsimp only
    cases g.dimension.extract record <;>
      constructor <;> simp [Request.op?, CollectorOp.isQuery, h]
  | addAll a =>
    by_cases hkind : a.kind = g.dimension.kind <;>
      constructor <;> simp [hkind, Request.op?, CollectorOp.isQuery, h]
  | finish =>
    constructor <;>
      simp [Request.op?, CollectorOp.isQuery, h, serve_finished, respond_finished]
  | _ => constructor <;> simp [Request.op?, CollectorOp.isQuery, h]

theorem phased_finished (d : Dimension ρ) (a : Axis) (request : Request ρ) {closed : Prop}
    (h : closed) : Phased d closed (finished d a) request ((finished d a).respond request).1
      ((finished d a).respond request).2 := by
  rw [respond_finished]
  cases request with
  | indexOf record =>
    dsimp only
    cases d.extract record <;> constructor <;> simp [Request.op?, CollectorOp.isQuery, h]
  | _ => constructor <;> simp [Request.op?, CollectorOp.isQuery, h]

/-- The phases of a collector through any run of requests, in any order: whatever came before, the
next request comes to what the phase says, also when it is taken step by step. -/
theorem phased_serve (d : Dimension ρ) (earlier : List (Request ρ)) (request : Request ρ) :
    let c := (start d).serve earlier
    Phased d (.finish ∈ earlier) c request (c.respond request).1 (c.respond request).2 ∧
      (perform request).run.run c = c.respond request := by
  refine ⟨?_, run_perform _ request⟩
  rcases serve_gathering { dimension := d } earlier with
    ⟨hopen, g, hserve, hdimension⟩ | ⟨hclosed, a, hserve⟩
  · obtain rfl : g.dimension = d := hdimension
    rw [start, hserve]
    exact phased_gathering g request hopen
  · rw [start, hserve]
    exact phased_finished d a request hclosed

end Collector

end GribCatalog
