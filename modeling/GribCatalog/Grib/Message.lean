import GribCatalog.Grib.Identification
import GribCatalog.Grib.Indicator
import GribCatalog.Grib.Product

/-!
A complete message as its fields. Every product definition section makes one field, or one fault of
its own; they share what the indicator and the identification section say.
-/

namespace GribCatalog

abbrev ScanItem := Except ScanFault Field

namespace Message

def field (file : UInt32) (offset : Nat) (indicator : Indicator) (source : Identification)
    (index : Nat) (s : Section) : ScanItem :=
  (Product.read s.bytes).map fun product => {
    file
    offset
    length := indicator.length
    index := UInt16.ofNat index
    centre := source.centre
    referenceTime := source.referenceTime
    template := product.template
    parameter := ⟨indicator.discipline, product.category, product.number⟩
    forecast := product.forecast
    level := product.level
    ensemble := product.ensemble }

def fields (file : UInt32) (offset : Nat) (indicator : Indicator) (message : Bytes) :
    Except ScanFault (List ScanItem) :=
  if message.length < Section.indicatorLength then
    .error (.frame offset .shorterThanIndicator)
  else do
    let sections ← Section.ofMessage message
    let first ← Section.withNumber 1 sections
    let source ← Identification.read first.bytes
    match sections.filter (·.number = 4) with
    | [] => .error (.inSection 4 .noProduct)
    | products => .ok (products.mapIdx (field file offset indicator source))

end Message

end GribCatalog
