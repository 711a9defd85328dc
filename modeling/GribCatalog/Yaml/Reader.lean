import GribCatalog.Yaml.Meaning
import GribCatalog.Yaml.Token

/-!
Reading YAML texts. A text holds one document at most, and no mapping in it repeats a key.
-/

namespace GribCatalog.Yaml

mutual

def depth : Yaml → Nat
  | sequence items => depthItems items + 1
  | mapping members => depthMembers members + 1
  | tagged _ value => value.depth
  | _ => 0

def depthItems : List Yaml → Nat
  | [] => 0
  | item :: items => max item.depth (depthItems items)

def depthMembers : List (Yaml × Yaml) → Nat
  | [] => 0
  | (k, v) :: members => max (max k.depth v.depth) (depthMembers members)

end

def nestingLimit : Nat := 128

structure Reading where
  tokens : List Token
  anchors : List (String × Option Yaml) := []

namespace Reading

def next (r : Reading) : Reading :=
  { r with tokens := r.tokens.tail }

def startsWith (r : Reading) (ts : List Token) : Bool :=
  match r.tokens with
  | t :: _ => t ∈ ts
  | [] => false

def name (r : Reading) (anchor : Option String) (value : Option Yaml) : Reading :=
  match anchor with
  | some a => { r with anchors := (a, value) :: r.anchors }
  | none => r

end Reading

structure Properties where
  anchor : Option String := none
  tag : Option String := none

/-- The beginnings that handles of tags stand for. -/
abbrev Handles := List (String × String)

def standardHandles : Handles :=
  [("!", "!"), ("!!", "tag:yaml.org,2002:")]

def resolveTag? (handles : Handles) (handle suffix : String) : Option String :=
  if handle = "" then some suffix else (handles.lookup handle).map (· ++ suffix)

/-- Reads at most one anchor and one tag. -/
def properties? (handles : Handles) (r : Reading) : Option (Properties × Reading) :=
  match r.tokens with
  | .anchor a :: .tag h s :: rest =>
    (resolveTag? handles h s).map fun t => (⟨some a, some t⟩, { r with tokens := rest })
  | .tag h s :: .anchor a :: rest =>
    (resolveTag? handles h s).map fun t => (⟨some a, some t⟩, { r with tokens := rest })
  | .anchor a :: rest => some (⟨some a, none⟩, { r with tokens := rest })
  | .tag h s :: rest =>
    (resolveTag? handles h s).map fun t => (⟨none, some t⟩, { r with tokens := rest })
  | _ => some ({}, r)

def scalar? (tag : Option String) (s : Scalar) : Option Yaml :=
  match tag.filter (· ≠ "!") with
  | none => ofScalar? s
  | some t =>
    match ownTag? t with
    | some own => (ofScalar? s).map (tagged own)
    | none => ofTagged? t s

def withTag (tag : Option String) (value : Yaml) : Yaml :=
  match tag.bind ownTag? with
  | some own => tagged own value
  | none => value

def mapping? (members : List (Yaml × Yaml)) : Option Yaml :=
  if DistinctKeys members then some (mapping members) else none

inductive Place
  | flow
  | block
  /-- In a mapping, where the entries of a sequence may stand at the mapping's own column. -/
  | blockMember
deriving DecidableEq

mutual

/-- Reads a node. Every call of the reader passes over a token or is one of a few before that;
`fuel` bounds them. -/
def node? (handles : Handles) : Nat → Place → Reading → Option (Yaml × Reading)
  | 0, _, _ => none
  | fuel + 1, place, r =>
    match r.tokens with
    | .alias a :: _ => do
      let value ← r.anchors.lookup a
      let value ← value
      some (value, r.next)
    | _ => do
      let (p, r) ← properties? handles r
      let r := r.name p.anchor none
      let (value, r) ← content? handles fuel place p r
      some (value, r.name p.anchor (some value))

def content? (handles : Handles) :
    Nat → Place → Properties → Reading → Option (Yaml × Reading)
  | 0, _, _, _ => none
  | fuel + 1, place, p, r =>
    let collection (result : Option (Yaml × Reading)) : Option (Yaml × Reading) :=
      result.map fun (value, r) => (withTag p.tag value, r)
    let items (result : Option (List Yaml × Reading)) : Option (Yaml × Reading) :=
      collection (result.map fun (items, r) => (sequence items, r))
    let members (result : Option (List (Yaml × Yaml) × Reading)) : Option (Yaml × Reading) :=
      collection (result.bind fun (members, r) => (mapping? members).map fun m => (m, r))
    match r.tokens with
    | .entry :: _ =>
      if place = .blockMember then items (entries? handles fuel false r) else absent? p r
    | .scalar s :: _ => (scalar? p.tag s).map fun value => (value, r.next)
    | .flowSequence :: _ => items (flowItems? handles fuel true r.next)
    | .flowMapping :: _ => members (flowMembers? handles fuel true r.next)
    | .blockSequence :: _ =>
      if place = .flow then absent? p r else items (entries? handles fuel true r.next)
    | .blockMapping :: _ =>
      if place = .flow then absent? p r else members (members? handles fuel r.next)
    | _ => absent? p r

def absent? (p : Properties) (r : Reading) : Option (Yaml × Reading) :=
  if p.anchor.isNone && p.tag.isNone then none
  else (scalar? p.tag ⟨"", true⟩).map fun value => (value, r)

/-- A node, or null before one of some tokens. -/
def nodeOrNull? (handles : Handles) :
    Nat → Place → List Token → Reading → Option (Yaml × Reading)
  | 0, _, _, _ => none
  | fuel + 1, place, ends, r =>
    if r.startsWith ends then some (null, r) else node? handles fuel place r

/-- The entries of a block sequence. One at the column of a mapping has no token at its end. -/
def entries? (handles : Handles) : Nat → Bool → Reading → Option (List Yaml × Reading)
  | 0, _, _ => none
  | fuel + 1, closed, r =>
    match r.tokens with
    | .entry :: _ => do
      let ends := if closed then [.entry, .blockEnd] else [.entry, .key, .value, .blockEnd]
      let (item, r) ← nodeOrNull? handles fuel .block ends r.next
      let (items, r) ← entries? handles fuel closed r
      some (item :: items, r)
    | .blockEnd :: _ => some ([], if closed then r.next else r)
    | _ => if closed then none else some ([], r)

def members? (handles : Handles) : Nat → Reading → Option (List (Yaml × Yaml) × Reading)
  | 0, _ => none
  | fuel + 1, r =>
    match r.tokens with
    | .key :: _ => do
      let ends := [.key, .value, .blockEnd]
      let (key, r) ← nodeOrNull? handles fuel .blockMember ends r.next
      let (value, r) ←
        if r.startsWith [.value] then nodeOrNull? handles fuel .blockMember ends r.next
        else some (null, r)
      let (members, r) ← members? handles fuel r
      some ((key, value) :: members, r)
    | .blockEnd :: _ => some ([], r.next)
    | _ => none

/-- A key between brackets and its value, if there is a colon. -/
def flowPair? (handles : Handles) : Nat → Token → Reading → Option ((Yaml × Yaml) × Reading)
  | 0, _, _ => none
  | fuel + 1, close, r => do
    let (key, r) ← nodeOrNull? handles fuel .flow [.value, .comma, close] r
    let (value, r) ←
      if r.startsWith [.value] then nodeOrNull? handles fuel .flow [.comma, close] r.next
      else some (null, r)
    some ((key, value), r)

/-- The items of a flow sequence. A pair of key and value is a mapping of its own. -/
def flowItems? (handles : Handles) : Nat → Bool → Reading → Option (List Yaml × Reading)
  | 0, _, _ => none
  | fuel + 1, first, r =>
    if r.startsWith [.flowSequenceEnd] then some ([], r.next)
    else do
      let r ← if first then some r else if r.startsWith [.comma] then some r.next else none
      if r.startsWith [.flowSequenceEnd] then some ([], r.next)
      else do
        let (item, r) ←
          if r.startsWith [.key] then
            (flowPair? handles fuel .flowSequenceEnd r.next).map fun (pair, r) =>
              (mapping [pair], r)
          else node? handles fuel .flow r
        let (items, r) ← flowItems? handles fuel false r
        some (item :: items, r)

/-- The members of a flow mapping. A key may stand alone. -/
def flowMembers? (handles : Handles) :
    Nat → Bool → Reading → Option (List (Yaml × Yaml) × Reading)
  | 0, _, _ => none
  | fuel + 1, first, r =>
    if r.startsWith [.flowMappingEnd] then some ([], r.next)
    else do
      let r ← if first then some r else if r.startsWith [.comma] then some r.next else none
      if r.startsWith [.flowMappingEnd] then some ([], r.next)
      else do
        let (pair, r) ←
          if r.startsWith [.key] then flowPair? handles fuel .flowMappingEnd r.next
          else (node? handles fuel .flow r).map fun (key, r) => ((key, null), r)
        let (members, r) ← flowMembers? handles fuel false r
        some (pair :: members, r)

end

/-- The directives before a document: one version at most, and no handle twice. -/
def directives? : Bool → Handles → List Token → Option (Handles × List Token)
  | versioned, handles, .directive (.version major minor) :: rest =>
    if versioned || major ≠ 1 || (minor ≠ 1 && minor ≠ 2) then none
    else directives? true handles rest
  | versioned, handles, .directive (.tag handle start) :: rest =>
    if (handles.lookup handle).isSome then none
    else directives? versioned ((handle, start) :: handles) rest
  | _, handles, rest => some (handles, rest)

def isBare (ts : List Token) : Bool :=
  match ts with
  | [] => true
  | .directive _ :: _ => true
  | .documentStart :: _ => true
  | .documentEnd :: _ => true
  | _ => false

/-- The document of some tokens and those after it. Directives need a mark after them. -/
def document? (ts : List Token) : Option (Yaml × List Token) :=
  match ts with
  | [] => some (null, [])
  | _ => do
    let (own, rest) ← directives? false [] ts
    let handles := own ++ standardHandles
    let rest ←
      match rest with
      | .documentStart :: rest => some rest
      | rest => if rest.length = ts.length then some rest else none
    if isBare rest && rest.length < ts.length then some (null, rest)
    else
      let (value, r) ← node? handles (4 * rest.length + 4) .block { tokens := rest }
      some (value, r.tokens)

def parse? (content : String) : Option Yaml := do
  let ts ← tokens? content.toList
  let (value, rest) ← document? ts
  if rest.all (· = .documentEnd) && value.depth ≤ nestingLimit then some value else none

end GribCatalog.Yaml
