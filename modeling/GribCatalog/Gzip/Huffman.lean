import GribCatalog.Gzip.Bits

/-!
Canonical prefix codes given by the lengths of their words. Words of one length are consecutive
numbers in the order of their symbols, after the shorter ones.
-/

namespace GribCatalog.Gzip

structure PrefixCode where
  /-- How many words there are of each length from one on. -/
  counts : List Nat
  /-- Symbols in the order of their words. -/
  symbols : List Nat

namespace PrefixCode

def longestWord : Nat := 15

/-- Words of the longest length that no word begins, `none` where there are too many words. -/
def unused? (counts : List Nat) : Option Nat :=
  counts.foldlM (fun left count => if count ≤ 2 * left then some (2 * left - count) else none) 1

/-- The code whose symbol `i` has a word of length `lengths[i]`, and none for length zero. Words may
be left over only beside a single one. -/
def ofLengths? (lengths : List Nat) : Option PrefixCode :=
  let lens := (List.range longestWord).map (· + 1)
  let counts := lens.map fun len => lengths.count len
  let symbols := lens.flatMap fun len =>
    lengths.zipIdx.filterMap fun (l, i) => if l = len then some i else none
  match unused? counts with
  | some left => if left = 0 || symbols.length ≤ 1 then some ⟨counts, symbols⟩ else none
  | none => none

/-- Reads on in a word. `code` is what has been read, and `first` the first word of its length, with
the symbols from there on. -/
def symbolFrom? (code first : Nat) (symbols : List Nat) :
    List Nat → BitSource → Option (Nat × BitSource)
  | [], _ => none
  | count :: counts, s =>
    match s.bit? with
    | none => none
    | some (b, s) =>
      let code := 2 * code + b.toNat
      let first := 2 * first
      if code < first + count then (symbols[code - first]?).map fun symbol => (symbol, s)
      else symbolFrom? code (first + count) (symbols.drop count) counts s

def symbol? (c : PrefixCode) (s : BitSource) : Option (Nat × BitSource) :=
  symbolFrom? 0 0 c.symbols c.counts s

end PrefixCode

end GribCatalog.Gzip
