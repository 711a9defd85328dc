import GribCatalog.Gzip.Checksum
import GribCatalog.Gzip.Inflate

/-!
The first member of gzip data: a header with optional parts, deflated data, and their check.
-/

namespace GribCatalog.Gzip

def magic : Bytes := [0x1F, 0x8B]

def isGzip (bs : Bytes) : Bool :=
  magic.isPrefixOf bs

/-- A number of `width` bytes, the lowest first, and what comes after it. -/
def littleEndian? (width : Nat) (bs : Bytes) : Option (Nat × Bytes) :=
  if width ≤ bs.length then some (Bytes.word (bs.take width).reverse, bs.drop width) else none

def skip? (count : Nat) (bs : Bytes) : Option Bytes :=
  if count ≤ bs.length then some (bs.drop count) else none

/-- Most bytes of a name or a comment. -/
def textLimit : Nat := 65535

def skipText? (bs : Bytes) : Option Bytes :=
  match bs.dropWhile (· ≠ 0) with
  | _ :: rest => if bs.length - rest.length ≤ textLimit + 1 then some rest else none
  | [] => none

def ifFlag (flags bit : Nat) (step : Bytes → Option Bytes) (bs : Bytes) : Option Bytes :=
  if flags.testBit bit then step bs else some bs

def skipExtra? (bs : Bytes) : Option Bytes := do
  let (len, bs) ← littleEndian? 2 bs
  skip? len bs

/-- Checks the lower half of the checksum of the header, which began with `header`. -/
def checkHeader? (header bs : Bytes) : Option Bytes := do
  let (check, rest) ← littleEndian? 2 bs
  let read := header.take (header.length - bs.length)
  if (checksum read).toNat % 65536 = check then some rest else none

/-- What comes after the header. Method 8 is the only one, and three flags have no meaning yet. -/
def skipHeader? (header : Bytes) : Option Bytes := do
  let bs ← skip? 10 header
  let flags := (header.getD 3 0).toNat
  if ¬ isGzip header ∨ header.getD 2 0 ≠ 8 ∨ 32 ≤ flags then none
  let bs ← ifFlag flags 2 skipExtra? bs
  let bs ← ifFlag flags 3 skipText? bs
  let bs ← ifFlag flags 4 skipText? bs
  ifFlag flags 1 (checkHeader? header) bs

/-- The data of the first member, if checksum and length are those given after them. -/
def decompress? (bs : Bytes) : Option Bytes := do
  let bs ← skipHeader? bs
  let (data, bs) ← inflate? bs
  let (check, bs) ← littleEndian? 4 bs
  let (len, _) ← littleEndian? 4 bs
  if (checksum data).toNat = check ∧ data.length % Nat.pow 2 32 = len then some data else none

end GribCatalog.Gzip
