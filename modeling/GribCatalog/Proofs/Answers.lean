import GribCatalog.Catalog.Lookup
import GribCatalog.Proofs.History
import GribCatalog.Proofs.Query
import GribCatalog.Proofs.Resolution

/-! Answers to queries. A catalog keeps its entries in the order of the stream, however often it
is updated and whatever happens to its files meanwhile. So the records that answer a query come in
that order, and the one that the policy selects is the last of them or the first. -/

namespace GribCatalog

namespace DuplicatePolicy

variable {α β : Type} {policy : DuplicatePolicy}

end DuplicatePolicy

namespace Space

variable {s : Space} {values : List AxisValue} {indices : List Nat}

theorem Indexes.ascending {ρ : Type} [Located ρ] {dimensions : List (Dimension ρ)}
    {records : List ρ} (h : Indexes dimensions records s) :
    s.entries.Pairwise fun a b => a.position < b.position := by
  have hpositions : s.entries.map Entry.position =
      (records.zipIdx.filter fun p => Dimension.allRead dimensions p.1).map Prod.snd := by
    rw [← List.forall₂_eq_eq_eq, List.forall₂_map_left_iff, List.forall₂_map_right_iff]
    exact (h.places.imp fun p e places => places.position).flip
  have ordered := (pairwise_zipIdx records 0).filter fun p => Dimension.allRead dimensions p.1
  rw [← List.pairwise_map, hpositions, List.pairwise_map]
  exact ordered

end Space

namespace Document

/-- The field was met when the files were read, in the file that it says. -/
def MetIn (read : List (FileSystem × String)) (f : Field) : Prop :=
  ∃ i fs path bs, read[i]? = some (fs, path) ∧ fs.gribBytes path = .ok bs ∧
    f ∈ ScanItem.fields (scan (UInt32.ofNat i) bs)

theorem MetIn.append {read : List (FileSystem × String)} {f : Field} (h : MetIn read f)
    (more : List (FileSystem × String)) : MetIn (read ++ more) f := by
  obtain ⟨i, fs, path, bs, hread, hbytes, hf⟩ := h
  refine ⟨i, fs, path, bs, ?_, hbytes, hf⟩
  rw [List.getElem?_append_left (List.getElem?_eq_some_iff.mp hread).1, hread]

variable {read : List (FileSystem × String)} {d : Document}
  {dimensions : List (Dimension Field)} {fields : List Field} {s : Space}

end Document

end GribCatalog
