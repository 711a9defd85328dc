import GribCatalog.Binary64.Basic
import GribCatalog.Calendar.Instant

/-!
One field of a message: what it holds, for when and where it holds it, and where its bytes are.
-/

namespace GribCatalog

structure Parameter where
  discipline : UInt8
  category : UInt8
  number : UInt8
deriving DecidableEq, Repr

def Parameter.text (p : Parameter) : String :=
  s!"{p.discipline}-{p.category}-{p.number}"

/-- Seconds from the reference time to the time a field is valid at, or to both ends of the period
it was accumulated or averaged over. -/
inductive Forecast
  | instant (offset : Int)
  | interval (start stop : Int)
deriving DecidableEq, Repr

namespace Forecast

def stop : Forecast → Int
  | instant offset => offset
  | interval _ stop => stop

def isInterval : Forecast → Bool
  | instant _ => false
  | interval _ _ => true

end Forecast

structure Surface where
  kind : UInt8
  value : Binary64
deriving DecidableEq, Repr

structure EnsembleForecast where
  kind : UInt8
  perturbation : UInt8
  size : UInt8
deriving DecidableEq, Repr

structure Field where
  file : UInt32
  /-- First byte of the message in its file. -/
  offset : Nat
  /-- Bytes of the message. -/
  length : Nat
  /-- Number of the field in the message. -/
  index : UInt16
  centre : UInt16
  referenceTime : Instant
  /-- Number of the product definition template. -/
  template : Nat
  parameter : Parameter
  forecast : Forecast
  level : Option Surface
  ensemble : Option EnsembleForecast
deriving DecidableEq, Repr

/-- End of the forecast period, unless it lies after the last representable instant. -/
def Field.validTime? (f : Field) : Option Instant :=
  f.referenceTime.addSeconds? f.forecast.stop

end GribCatalog
