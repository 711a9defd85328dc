import GribCatalog.Grib.Fault
import GribCatalog.Text.Lowercase

/-!
Units of time ranges. Months and longer units have no fixed length and are refused.
-/

namespace GribCatalog

inductive TimeUnit
  | second
  | minute
  | hour
  | threeHours
  | sixHours
  | twelveHours
  | day
deriving DecidableEq, Repr

namespace TimeUnit

def ofCode (code : UInt8) : Except ScanFault TimeUnit :=
  match code.toNat with
  | 0 => .ok minute
  | 1 => .ok hour
  | 2 => .ok day
  | 10 => .ok threeHours
  | 11 => .ok sixHours
  | 12 => .ok twelveHours
  | 13 => .ok second
  | _ => .error (.timeUnit code)

def seconds : TimeUnit → Nat
  | second => 1
  | minute => 60
  | hour => 3600
  | threeHours => 10800
  | sixHours => 21600
  | twelveHours => 43200
  | day => 86400

def ofName? (name : String) : Option TimeUnit :=
  match Text.lowerString name with
  | "s" | "sec" | "second" | "seconds" => some second
  | "m" | "min" | "minute" | "minutes" => some minute
  | "h" | "hour" | "hours" => some hour
  | "3h" => some threeHours
  | "6h" => some sixHours
  | "12h" => some twelveHours
  | "d" | "day" | "days" => some day
  | _ => none

/-- The unit's name in dimension names. -/
def name : TimeUnit → String
  | second => "second"
  | minute => "minute"
  | hour => "hour"
  | threeHours => "3h"
  | sixHours => "6h"
  | twelveHours => "12h"
  | day => "day"

/-- The unit's name in messages. -/
def title : TimeUnit → String
  | second => "Second"
  | minute => "Minute"
  | hour => "Hour"
  | threeHours => "ThreeHours"
  | sixHours => "SixHours"
  | twelveHours => "TwelveHours"
  | day => "Day"

end TimeUnit

end GribCatalog
