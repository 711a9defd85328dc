import GribCatalog.Gzip.Huffman

/-!
Inflating DEFLATE data: blocks of stored bytes, or of literals and matches in fixed or given codes.
Zeros are taken to stand before the data, and a match may reach into them.
-/

namespace GribCatalog.Gzip

abbrev Output := Array UInt8

/-- Appends `count` bytes, each the one `distance` before it. -/
def repeatBytes (distance : Nat) : Nat → Output → Output
  | 0, out => out
  | count + 1, out =>
    let b := if distance ≤ out.size then out.getD (out.size - distance) 0 else 0
    repeatBytes distance count (out.push b)

/-- Shortest length and number of extra bits of the length symbols, from 257 on. -/
def lengthTable : List (Nat × Nat) :=
  [(3, 0), (4, 0), (5, 0), (6, 0), (7, 0), (8, 0), (9, 0), (10, 0), (11, 1), (13, 1), (15, 1),
    (17, 1), (19, 2), (23, 2), (27, 2), (31, 2), (35, 3), (43, 3), (51, 3), (59, 3), (67, 4),
    (83, 4), (99, 4), (115, 4), (131, 5), (163, 5), (195, 5), (227, 5), (258, 0)]

/-- Shortest distance and number of extra bits of the distance symbols. -/
def distanceTable : List (Nat × Nat) :=
  [(1, 0), (2, 0), (3, 0), (4, 0), (5, 1), (7, 1), (9, 2), (13, 2), (17, 3), (25, 3), (33, 4),
    (49, 4), (65, 5), (97, 5), (129, 6), (193, 6), (257, 7), (385, 7), (513, 8), (769, 8),
    (1025, 9), (1537, 9), (2049, 10), (3073, 10), (4097, 11), (6145, 11), (8193, 12),
    (12289, 12), (16385, 13), (24577, 13)]

/-- The number that a symbol of a table stands for, with its extra bits. -/
def extended? (table : List (Nat × Nat)) (symbol : Nat) (s : BitSource) :
    Option (Nat × BitSource) := do
  let (base, extra) ← table[symbol]?
  let (n, s) ← s.number? extra
  some (base + n, s)

structure BlockCodes where
  literals : PrefixCode
  distances : PrefixCode

def endOfBlock : Nat := 256

/-- Literals and matches up to the end of the block. Each takes a bit at least, and `fuel` bounds
their number. -/
def inflateSymbols? (codes : BlockCodes) : Nat → Output → BitSource → Option (Output × BitSource)
  | 0, _, _ => none
  | fuel + 1, out, s => do
    let (symbol, s) ← codes.literals.symbol? s
    if symbol < endOfBlock then inflateSymbols? codes fuel (out.push (UInt8.ofNat symbol)) s
    else if symbol = endOfBlock then some (out, s)
    else
      let (len, s) ← extended? lengthTable (symbol - endOfBlock - 1) s
      let (symbol, s) ← codes.distances.symbol? s
      let (distance, s) ← extended? distanceTable symbol s
      inflateSymbols? codes fuel (repeatBytes distance len out) s

/-- Stored bytes, from the next whole byte on: their number, its complement, and the bytes. -/
def inflateStored? (out : Output) (s : BitSource) : Option (Output × BitSource) :=
  match s.bytes with
  | a :: b :: c :: d :: rest =>
    let len := a.toNat + 256 * b.toNat
    if len + (c.toNat + 256 * d.toNat) = 65535 ∧ len ≤ rest.length then
      some (out ++ rest.take len, .ofBytes (rest.drop len))
    else none
  | _ => none

def fixedCodes? : Option BlockCodes := do
  let literals ← PrefixCode.ofLengths? (List.replicate 144 8 ++ List.replicate 112 9 ++
    List.replicate 24 7 ++ List.replicate 8 8)
  let distances ← PrefixCode.ofLengths? (List.replicate 32 5)
  some ⟨literals, distances⟩

def smallLengths? : Nat → BitSource → Option (List Nat × BitSource)
  | 0, s => some ([], s)
  | count + 1, s => do
    let (n, s) ← s.number? 3
    let (ns, s) ← smallLengths? count s
    some (n :: ns, s)

/-- The order in which the lengths of the code for lengths are given. -/
def lengthOrder : List Nat :=
  [16, 17, 18, 0, 8, 7, 9, 6, 10, 5, 11, 4, 12, 3, 13, 2, 14, 1, 15]

/-- The run of lengths that a symbol stands for after the lengths `sofar`, which are reversed. -/
def lengthRun? (sofar : List Nat) (symbol : Nat) (s : BitSource) :
    Option (List Nat × BitSource) :=
  if symbol < 16 then some ([symbol], s)
  else if symbol = 16 then do
    let last ← sofar.head?
    let (n, s) ← s.number? 2
    some (List.replicate (n + 3) last, s)
  else if symbol = 17 then do
    let (n, s) ← s.number? 3
    some (List.replicate (n + 3) 0, s)
  else do
    let (n, s) ← s.number? 7
    some (List.replicate (n + 11) 0, s)

/-- Exactly `count` lengths in a code for lengths. Every step of `fuel` gives one at least. -/
def codedLengths? (code : PrefixCode) (count : Nat) :
    Nat → List Nat → BitSource → Option (List Nat × BitSource)
  | 0, sofar, s => if sofar.length = count then some (sofar.reverse, s) else none
  | fuel + 1, sofar, s =>
    if count ≤ sofar.length then codedLengths? code count 0 sofar s
    else do
      let (symbol, s) ← code.symbol? s
      let (run, s) ← lengthRun? sofar symbol s
      codedLengths? code count fuel (run ++ sofar) s

def givenCodes? (s : BitSource) : Option (BlockCodes × BitSource) := do
  let (n, s) ← s.number? 5
  let (m, s) ← s.number? 5
  let (k, s) ← s.number? 4
  let literalCount := n + 257
  let distanceCount := m + 1
  if 286 < literalCount ∨ 30 < distanceCount then none
  let (small, s) ← smallLengths? (k + 4) s
  let given := lengthOrder.zip small
  let code ← PrefixCode.ofLengths? ((List.range 19).map fun i => (given.lookup i).getD 0)
  let count := literalCount + distanceCount
  let (lengths, s) ← codedLengths? code count count [] s
  let literals ← PrefixCode.ofLengths? (lengths.take literalCount)
  let distances ← PrefixCode.ofLengths? (lengths.drop literalCount)
  some (⟨literals, distances⟩, s)

def inflateBlock? (type : Nat) (out : Output) (s : BitSource) : Option (Output × BitSource) :=
  match type with
  | 0 => inflateStored? out s
  | 1 => fixedCodes?.bind fun codes => inflateSymbols? codes (s.size + 1) out s
  | 2 => (givenCodes? s).bind fun (codes, s) => inflateSymbols? codes (s.size + 1) out s
  | _ => none

/-- Blocks up to one that is marked as the last. Each takes three bits at least, and `fuel` bounds
their number. -/
def inflateBlocks? : Nat → Output → BitSource → Option (Output × BitSource)
  | 0, _, _ => none
  | fuel + 1, out, s => do
    let (last, s) ← s.bit?
    let (type, s) ← s.number? 2
    let (out, s) ← inflateBlock? type out s
    if last then some (out, s) else inflateBlocks? fuel out s

def inflate? (bs : Bytes) : Option (Bytes × Bytes) :=
  let s := BitSource.ofBytes bs
  (inflateBlocks? (s.size + 1) #[] s).map fun (out, s) => (out.toList, s.bytes)

end GribCatalog.Gzip
