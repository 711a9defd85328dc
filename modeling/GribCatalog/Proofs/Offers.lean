import GribCatalog.Proofs.Order
import GribCatalog.Proofs.Phases

/-! What a collector is offered. Values come with records, one by one or as a whole axis, and some
are refused. The axis lists those that were taken, in the order of the dimension: neither the order
of the offers shows in it nor the order in which the values were kept. -/

namespace GribCatalog

variable {ρ : Type}

namespace Request

def values (d : Dimension ρ) : Request ρ → List AxisValue
  | addRecord record =>
    match d.extract record with
    | .ok v => [v]
    | .error _ => []
  | addValue v => [v]
  | addAll a => a.values
  | _ => []

/-- Whether a collector of the dimension takes what the request brings, while it is gathering. -/
def IsTaken (d : Dimension ρ) : Request ρ → Prop
  | addRecord record => ∃ v, d.extract record = .ok v
  | addValue _ => True
  | addAll a => a.kind = d.kind
  | _ => False

def Offered (d : Dimension ρ) (requests : List (Request ρ)) (v : AxisValue) : Prop :=
  ∃ request ∈ requests, request.IsTaken d ∧ v ∈ request.values d

end Request

namespace Gathering

/-- The gathering after a request that it goes on gathering after. -/
def take (g : Gathering ρ) : Request ρ → Gathering ρ
  | .addRecord record => g.offer record
  | .addValue v => g.add v
  | .addAll a => if a.kind = g.dimension.kind then a.values.foldl add g else g
  | _ => g

@[simp] theorem take_dimension (g : Gathering ρ) (request : Request ρ) :
    (g.take request).dimension = g.dimension := by
  cases request with
  | addRecord record => exact offer_dimension g record
  | addAll a =>
    rw [take]
    split
    · exact foldl_add_dimension a.values g
    · rfl
  | _ => rfl

theorem mem_take {g : Gathering ρ} {request : Request ρ} {v : AxisValue} :
    v ∈ (g.take request).values ↔
      v ∈ g.values ∨ request.IsTaken g.dimension ∧ v ∈ request.values g.dimension := by
  cases request with
  | addRecord record =>
    rw [take, mem_offer]
    cases h : g.dimension.extract record <;> simp [Request.IsTaken, Request.values, h, eq_comm]
  | addValue w =>
    simp [take, add, Request.IsTaken, Request.values, List.mem_insert_iff, or_comm]
  | addAll a =>
    rw [take]
    split
    · next h => simp [mem_foldl_add, Request.IsTaken, Request.values, h]
    · next h => simp [Request.IsTaken, h]
  | _ => simp [take, Request.IsTaken]

theorem nodup_take {g : Gathering ρ} (nodup : g.values.Nodup) (request : Request ρ) :
    (g.take request).values.Nodup := by
  cases request with
  | addRecord record => exact nodup_offer nodup record
  | addValue v => exact nodup.insert
  | addAll a =>
    rw [take]
    split
    · exact nodup_foldl_add nodup a.values
    · exact nodup
  | _ => exact nodup

/-- What a run of requests leaves: the values that were there and those that are offered, each
once. -/
theorem foldl_take (requests : List (Request ρ)) (g : Gathering ρ) :
    (requests.foldl take g).dimension = g.dimension ∧
      (∀ v, v ∈ (requests.foldl take g).values ↔
        v ∈ g.values ∨ Request.Offered g.dimension requests v) ∧
      (g.values.Nodup → (requests.foldl take g).values.Nodup) := by
  induction requests generalizing g with
  | nil => exact ⟨rfl, by simp [Request.Offered], id⟩
  | cons request requests ih =>
    obtain ⟨hdimension, hmem, hnodup⟩ := ih (g.take request)
    rw [take_dimension] at hdimension hmem
    refine ⟨hdimension, fun v => ?_, fun h => hnodup (nodup_take h request)⟩
    rw [List.foldl_cons, hmem, mem_take, or_assoc]
    simp [Request.Offered]

/-- The axis of a gathering that keeps no value twice, whatever the order that it keeps them in. -/
theorem axis_eq_of_perm {g h : Gathering ρ} (ordered : g.dimension.Ordered)
    (dimension : h.dimension = g.dimension) (nodup : g.values.Nodup) (nodup' : h.values.Nodup)
    (same : ∀ v, v ∈ h.values ↔ v ∈ g.values) : h.axis = g.axis := by
  rw [axis, axis, dimension, ordered.sort_congr nodup' nodup same]

end Gathering

namespace Collector

theorem respond_take (g : Gathering ρ) {request : Request ρ} (h : request ≠ .finish) :
    ((gathering g).respond request).2 = gathering (g.take request) := by
  rw [respond_gathering]
  cases request with
  | addRecord record =>
    dsimp only [Gathering.take, Gathering.offer]
    cases g.dimension.extract record <;> rfl
  | addAll a =>
    dsimp only [Gathering.take]
    split <;> rfl
  | finish => exact absurd rfl h
  | _ => rfl

theorem serve_take {requests : List (Request ρ)} (h : .finish ∉ requests) (g : Gathering ρ) :
    (gathering g).serve requests = gathering (requests.foldl Gathering.take g) := by
  induction requests generalizing g with
  | nil => rfl
  | cons request requests ih =>
    rw [List.mem_cons, not_or] at h
    rw [serve, List.foldl_cons, respond_take g (Ne.symm h.1), List.foldl_cons]
    exact ih h.2 (g.take request)

/-- While it is gathering, a collector says of a request that it has added something exactly when
it takes what the request brings. -/
theorem respond_eq_added_iff (g : Gathering ρ) (request : Request ρ) :
    ((gathering g).respond request).1 = .ok .added ↔ request.IsTaken g.dimension := by
  rw [respond_gathering]
  cases request with
  | addRecord record =>
    cases h : g.dimension.extract record <;> simp [Request.IsTaken, h]
  | addAll a => by_cases h : a.kind = g.dimension.kind <;> simp [Request.IsTaken, h]
  | _ => simp [Request.IsTaken]

/-- An axis that a run of requests makes. Its values are those that the run has offered, strictly
ascending, in whatever order they were kept until then, and it gives them their places. -/
structure Makes (d : Dimension ρ) (requests : List (Request ρ)) (a : Axis) : Prop where
  added : ∀ earlier request, earlier ++ [request] <+: requests →
    ((((start d).serve earlier).respond request).1 = .ok .added ↔ request.IsTaken d)
  finish : ((start d).serve requests).respond .finish = (.ok (.finished a), finished d a)
  name : a.name = d.name
  kind : a.kind = d.kind
  ascending : a.values.Pairwise fun v w => d.order v w = .lt
  mem : ∀ v, v ∈ a.values ↔ Request.Offered d requests v
  size : ((start d).serve requests).size = a.values.length
  shuffled : ∀ g values, (start d).serve requests = gathering g → values.Perm g.values →
    (gathering { g with values }).respond .finish = (.ok (.finished a), finished d a)
  index : ∀ v, ∃ i?, ((finished d a).respond (.indexOfValue v)).1 = .ok (.index i?) ∧
    (∀ i, i? = some i ↔ a.values[i]? = some v) ∧ (i? = none ↔ v ∉ a.values)

theorem makes_axis {d : Dimension ρ} (ordered : d.Ordered) {requests : List (Request ρ)}
    (gathers : .finish ∉ requests) {g : Gathering ρ} (dimension : g.dimension = d)
    (nodup : g.values.Nodup) (mem : ∀ v, v ∈ g.values ↔ Request.Offered d requests v) :
    Makes d requests g.axis := by
  subst dimension
  obtain ⟨hdimension, hmem, hnodup⟩ :=
    Gathering.foldl_take requests { dimension := g.dimension }
  have hserve := serve_take gathers { dimension := g.dimension }
  generalize requests.foldl Gathering.take { dimension := g.dimension } = h at *
  have hnodup : h.values.Nodup := hnodup List.nodup_nil
  have hsame (v : AxisValue) : v ∈ h.values ↔ v ∈ g.values := by
    rw [hmem, mem]
    simp
  have haxis : h.axis = g.axis := Gathering.axis_eq_of_perm ordered hdimension nodup hnodup hsame
  constructor
  case added =>
    rintro earlier request ⟨later, rfl⟩
    have hearlier : .finish ∉ earlier := fun h => gathers (by simp [h])
    rw [start, serve_take hearlier, respond_eq_added_iff]
    rw [(Gathering.foldl_take earlier { dimension := g.dimension }).1]
  case finish =>
    rw [start, hserve, respond_gathering, ← haxis, ← hdimension]
  case name => rfl
  case kind => rfl
  case ascending => exact ordered.pairwise_sort nodup
  case mem =>
    intro v
    rw [← mem]
    exact Dimension.mem_sort
  case size =>
    rw [start, hserve, ← haxis]
    exact (List.length_mergeSort h.values).symm
  case shuffled =>
    intro k values hk perm
    rw [start, hserve] at hk
    cases hk
    have : Gathering.axis { h with values } = g.axis :=
      Gathering.axis_eq_of_perm ordered hdimension nodup (perm.nodup_iff.mpr hnodup)
        fun v => perm.mem_iff.trans (hsame v)
    rw [respond_gathering, this, hdimension]
  case index =>
    intro v
    refine ⟨g.axis.index? v, ?_, fun i => ?_, Axis.lastIndex?_eq_none_iff⟩
    · rw [respond_finished]
    · exact Axis.index?_eq_some_iff (Dimension.nodup_sort nodup)

/-- A run of requests before the one to finish makes an axis, and every other run that offers the
same values makes the same one. -/
theorem exists_makes {d : Dimension ρ} (ordered : d.Ordered) {requests : List (Request ρ)}
    (gathers : .finish ∉ requests) :
    ∃ a, Makes d requests a ∧ ∀ requests', .finish ∉ requests' →
      (∀ v, Request.Offered d requests' v ↔ Request.Offered d requests v) →
        Makes d requests' a := by
  obtain ⟨hdimension, hmem, hnodup⟩ := Gathering.foldl_take requests { dimension := d }
  have hnodup := hnodup List.nodup_nil
  have hmem (v : AxisValue) :
      v ∈ (requests.foldl Gathering.take { dimension := d }).values ↔
        Request.Offered d requests v := by
    rw [hmem]
    simp
  refine ⟨_, makes_axis ordered gathers hdimension hnodup hmem, fun requests' gathers' same => ?_⟩
  exact makes_axis ordered gathers' hdimension hnodup fun v => (hmem v).trans (same v).symm

/-- Levels from the highest to the lowest: a field without a level and an axis of another kind are
refused, a value is given again, and a look-up comes too early. The same three values, offered the
other way round, make the same axis. -/
theorem exists_makes_levels :
    let d := (FieldDimension.vertical none true).dimension
    let field (level : Option Surface) : Field :=
      ⟨0, 0, 28, 0, 98, ⟨0, 0⟩, 0, ⟨0, 0, 0⟩, .instant 0, level, none⟩
    let low : AxisValue := .level ⟨100, ⟨0x407F400000000000⟩, by decide, by decide⟩
    let high : AxisValue := .level ⟨100, ⟨0x408A900000000000⟩, by decide, by decide⟩
    let requests : List (Request Field) :=
      [.addRecord (field (some ⟨100, ⟨0x407F400000000000⟩⟩)), .addRecord (field none),
        .addValue (.integer 3), .addAll ⟨"runs", .runtime, [.integer 4]⟩, .indexOfValue low,
        .addAll ⟨"levels", .vertical, [high, low]⟩]
    let requests' : List (Request Field) :=
      [.addAll ⟨"vertical", .vertical, [high, .integer 3, low]⟩]
    (d.Ordered ∧ .finish ∉ requests ∧ .finish ∉ requests' ∧
      ∀ v, Request.Offered d requests' v ↔ Request.Offered d requests v) ∧
    ∃ a, Makes d requests a ∧ Makes d requests' a ∧ a.values.length = 3 := by
  intro d field low high requests requests'
  have ordered : d.Ordered := FieldDimension.ordered (.vertical none true)
  have gathers : .finish ∉ requests := by simp [requests]
  have gathers' : .finish ∉ requests' := by simp [requests']
  have read : d.extract (field (some ⟨100, ⟨0x407F400000000000⟩⟩)) = .ok low := by decide +kernel
  have unread : d.extract (field none) = .error (.missing "record has no fixed surface") := rfl
  have kind : d.kind = .vertical := rfl
  have same (v : AxisValue) : Request.Offered d requests' v ↔ Request.Offered d requests v := by
    simp only [Request.Offered, requests, requests', List.exists_mem_cons_iff, Request.IsTaken,
      Request.values, read, unread, kind]
    simp
    tauto
  obtain ⟨a, makes, others⟩ := exists_makes ordered gathers
  refine ⟨⟨ordered, gathers, gathers', same⟩, a, makes, others requests' gathers' same, ?_⟩
  have size : ((start d).serve requests).size = 3 := by decide +kernel
  rw [← makes.size, size]

end Collector

end GribCatalog
