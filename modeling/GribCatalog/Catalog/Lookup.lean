import GribCatalog.Catalog.Document
import GribCatalog.Space.Query

/-!
Answers to queries: every record at a cell, and the one that the policy keeps for it.
-/

namespace GribCatalog

structure Hit where
  path : Option String
  offset : Nat
  length : Nat
  field : UInt16
  position : Nat
deriving DecidableEq, Repr

structure LookupAnswer where
  /-- Indices of the cell, if every value is on its axis. -/
  indices : Option (List Nat)
  /-- The cell's records in the order of the stream. -/
  hits : List Hit
  selected : Option Hit
deriving DecidableEq, Repr

def Document.hit (d : Document) (e : Entry) : Hit :=
  ⟨d.pathOf? e.location, e.location.offset, e.location.length, e.location.field, e.position⟩

def Document.lookup (d : Document) (s : Space) (pairs : List String) :
    Except QueryFault LookupAnswer := do
  let values ← Query.values s pairs
  match s.indicesOf? values with
  | some indices =>
    .ok ⟨some indices, (s.entriesAt indices).map d.hit, (s.entryAt? indices).map d.hit⟩
  | none => .ok ⟨none, [], none⟩

def Hit.toJson (h : Hit) : Json :=
  .ofMembers [("path", .ofOption .ofString h.path), ("offset", .ofNat h.offset),
    ("length", .ofNat h.length), ("field", .ofNat h.field.toNat),
    ("position", .ofNat h.position)]

namespace LookupAnswer

def isFound (a : LookupAnswer) : Bool :=
  !a.hits.isEmpty

def toJson (a : LookupAnswer) : Json :=
  .ofMembers [("indices", .ofOption (fun is => .array (is.map .ofNat)) a.indices),
    ("hits", .array (a.hits.map Hit.toJson)), ("selected", .ofOption Hit.toJson a.selected)]

end LookupAnswer

end GribCatalog
