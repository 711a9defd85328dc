import GribCatalog.Axis.Json
import GribCatalog.Json.Reader
import GribCatalog.Space.Basic

/-!
The written form of a space. Cells are not written: they are found again when a space is restored,
after every entry has been checked against the axes.
-/

namespace GribCatalog

structure Snapshot where
  version : Nat
  policy : DuplicatePolicy
  axes : List Axis
  entries : List Entry
  nextPosition : Nat := 0
deriving DecidableEq

namespace Snapshot

def currentVersion : Nat := 1

def outOfRange? (position axis : Nat) : List (Nat × Nat) → Option SnapshotFault
  | [] => none
  | (i, n) :: rest =>
    if i < n then outOfRange? position (axis + 1) rest
    else some (.outOfRange position i axis n)

def entryFault? (shape : List Nat) (e : Entry) : Option SnapshotFault :=
  if e.indices.length ≠ shape.length then
    some (.arity e.position e.indices.length shape.length)
  else outOfRange? e.position 0 (e.indices.zip shape)

def axisFault? (a : Axis) : Option SnapshotFault :=
  if a.indexSize = a.size then none else some (.repeatedValue a.name)

/-- What is wrong with a snapshot: its version, its axes, or its entries, in this order. -/
def fault? (s : Snapshot) : Option IndexFault :=
  if s.version ≠ currentVersion then some (.version s.version)
  else if s.axes.isEmpty then some (.corrupt .noAxes)
  else
    match s.axes.findSome? axisFault? with
    | some fault => some (.corrupt fault)
    | none => (s.entries.findSome? (entryFault? (s.axes.map Axis.size))).map .corrupt

end Snapshot

namespace Space

def snapshot (s : Space) : Snapshot :=
  ⟨Snapshot.currentVersion, s.policy, s.axes, s.entries, s.nextPosition⟩

def restore (s : Snapshot) : Except IndexFault Space :=
  match s.fault? with
  | some fault => .error fault
  | none => .ok (assemble s.axes s.entries s.policy s.nextPosition)

end Space

namespace Location

def toJson (l : Location) : Json :=
  .ofMembers [("file", .ofNat l.file.toNat), ("offset", .ofNat l.offset),
    ("length", .ofNat l.length), ("field", .ofNat l.field.toNat)]

def ofJson? (j : Json) : Option Location :=
  match j.fields? ["file", "offset", "length", "field"] with
  | some [some file, some offset, some length, field] => do
    let file ← file.natural? (Nat.pow 2 32)
    let offset ← offset.natural? wordLimit
    let length ← length.natural? wordLimit
    let field ← Json.orDefault (Json.natural? (Nat.pow 2 16)) 0 field
    some ⟨UInt32.ofNat file, offset, length, UInt16.ofNat field⟩
  | _ => none

end Location

namespace Entry

def toJson (e : Entry) : Json :=
  .ofMembers [("position", .ofNat e.position), ("location", e.location.toJson),
    ("indices", .array (e.indices.map .ofNat))]

def ofJson? (j : Json) : Option Entry :=
  match j.fields? ["position", "location", "indices"] with
  | some [some position, some location, some indices] => do
    let position ← position.natural? wordLimit
    let location ← Location.ofJson? location
    let indices ← indices.list? (Json.natural? wordLimit)
    some ⟨position, location, indices⟩
  | _ => none

end Entry

namespace Snapshot

def toJson (s : Snapshot) : Json :=
  .ofMembers [("format_version", .ofNat s.version), ("policy", s.policy.toJson),
    ("coordinates", .array (s.axes.map Axis.toJson)),
    ("entries", .array (s.entries.map Entry.toJson)), ("next_position", .ofNat s.nextPosition)]

/-- Reads a snapshot whose own object is at `level`, counted from one. -/
def ofJsonAt? (level : Nat) (j : Json) : Option Snapshot :=
  let names := ["format_version", "policy", "coordinates", "entries", "next_position"]
  match j.fields? names with
  | some [some version, some policy, some axes, some entries, nextPosition] => do
    let version ← version.natural? (Nat.pow 2 32)
    let policy ← DuplicatePolicy.ofJson? policy
    let axes ← axes.list? (Axis.ofJsonAt? (level + 2))
    let entries ← entries.list? Entry.ofJson?
    let nextPosition ← Json.orDefault (Json.natural? wordLimit) 0 nextPosition
    some { version, policy, axes, entries, nextPosition }
  | _ => none

end Snapshot

namespace Space

def text (s : Space) : String :=
  s.snapshot.toJson.pretty

def ofText (text : String) : Except IndexFault Space :=
  match (Json.parse? text).bind (Snapshot.ofJsonAt? 1) with
  | some snapshot => restore snapshot
  | none => .error .unreadable

def ofFile (contents : Option String) : Except IndexFault Space :=
  match contents with
  | some text => ofText text
  | none => .error .absent

end Space

end GribCatalog
