import Mathlib.Algebra.Group.Nat.Defs
import Mathlib.Data.String.Defs

/-!
# Calendar texts of instants

An instant is a number of microseconds since the epoch. Its text shows the clock of a zone that is
`zone` seconds ahead of UTC.
-/

namespace Calendar

/-- A decimal numeral of at least `width` digits. -/
def pad (width n : Nat) : String :=
  let ds := Nat.toDigits 10 n
  String.ofList (List.replicate (width - ds.length) '0' ++ ds)

/-- Year, month and day of a day counted from the epoch, in the Gregorian calendar. The count is
taken from 1 March of year 0 in cycles of 400 years. -/
def civil (day : Int) : Int × Nat × Nat :=
  let z := day + 719468
  let era := z / 146097
  let doe := (z % 146097).toNat
  let yoe := (doe - doe / 1460 + doe / 36524 - doe / 146096) / 365
  let doy := doe - (365 * yoe + yoe / 4 - yoe / 100)
  let mp := (5 * doy + 2) / 153
  let d := doy - (153 * mp + 2) / 5 + 1
  let m := if mp < 10 then mp + 3 else mp - 9
  (era * 400 + yoe + (if m ≤ 2 then 1 else 0), m, d)

/-- The layout `2006` of a year. -/
def yearText (y : Int) : String := if y < 0 then "-" ++ pad 4 y.natAbs else pad 4 y.toNat

/-- The clock of a zone to the second, in the layout `2006-01-02T15:04:05`. -/
def clockText (zone t : Int) : String :=
  let secs := t / 1000000 + zone
  let (y, m, d) := civil (secs / 86400)
  let s := (secs % 86400).toNat
  yearText y ++ "-" ++ pad 2 m ++ "-" ++ pad 2 d ++ "T" ++ pad 2 (s / 3600) ++ ":" ++
    pad 2 (s / 60 % 60) ++ ":" ++ pad 2 (s % 60)

/-- The offset of a zone in the layout `Z07:00`, cut to minutes. -/
def offsetText (zone : Int) : String :=
  if zone = 0 then "Z"
  else
    let mins := zone.natAbs / 60
    (if zone < 0 ∧ mins ≠ 0 then "-" else "+") ++ pad 2 (mins / 60) ++ ":" ++ pad 2 (mins % 60)

/-- The layout `time.RFC3339`. -/
def rfc3339 (zone t : Int) : String := clockText zone t ++ offsetText zone

/-- The layout `2006-01-02T15:04:05Z`, whose last letter is a letter. -/
def clockZ (zone t : Int) : String := clockText zone t ++ "Z"

/-- The fraction of a second, without zeros at its end. -/
def fractionText (t : Int) : String :=
  let f := (t % 1000000).toNat
  if f = 0 then ""
  else "." ++ String.ofList (((pad 6 f).toList.reverse.dropWhile (· = '0')).reverse)

/-- The text in which a `time.Time` enters a JSON document. -/
def rfc3339Nano (zone t : Int) : String :=
  clockText zone t ++ fractionText t ++ offsetText zone

example : rfc3339Nano 3600 951782399500000 = "2000-02-29T00:59:59.5+01:00" := rfl

end Calendar
