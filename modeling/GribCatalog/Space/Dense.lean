import GribCatalog.Space.Basic

/-!
A space seen as a full array, with its axes in any order. Cells are visited in row-major order.
-/

namespace GribCatalog

structure DenseView where
  space : Space
  /-- The axis of the space that each axis of the view is. -/
  order : List Nat
  shape : List Nat
  size : Nat

namespace DenseView

/-- Whether a list holds every number below its length once. -/
def isPermutation (rank : Nat) (order : List Nat) : Bool :=
  order.length = rank && (List.range rank).all fun d => d ∈ order

def ofSpace (s : Space) (order : List Nat) : Except IndexFault DenseView :=
  if isPermutation s.rank order then
    let shape := order.map fun d => s.shape.getD d 0
    match s.denseSize? with
    | some size => .ok ⟨s, order, shape, size⟩
    | none => .error (.tooLarge shape)
  else .error (.order order s.rank)

def axes (v : DenseView) : List Axis :=
  v.order.filterMap fun d => v.space.axes[d]?

def undo (order index : List Nat) : List Nat :=
  (List.range order.length).map fun d => index.getD (order.idxOf d) 0

/-- The entry of a cell, `none` inside where there is none, unless the index is out of bounds. -/
def get? (v : DenseView) (index : List Nat) : Option (Option Entry) :=
  if index.length = v.shape.length && (index.zip v.shape).all fun (i, n) => i < n then
    some (v.space.entryAt? (undo v.order index))
  else none

/-- All tuples below a shape, the last component running fastest. -/
def tuples : List Nat → List (List Nat)
  | [] => [[]]
  | n :: ns => (List.range n).flatMap fun i => (tuples ns).map fun index => i :: index

def cells (v : DenseView) : List (List Nat × Option Entry) :=
  (tuples v.shape).map fun index => (index, v.space.entryAt? (undo v.order index))

def presentCount (v : DenseView) : Nat :=
  v.space.cells.length

def missingCount (v : DenseView) : Nat :=
  v.size - v.presentCount

/-- The array of what every entry becomes, with `missing` where there is none. -/
def fill {α : Type} (v : DenseView) (missing : α) (f : Entry → α) : List α :=
  v.cells.map fun (_, entry) => (entry.map f).getD missing

end DenseView

end GribCatalog
