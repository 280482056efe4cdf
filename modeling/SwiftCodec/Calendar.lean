/-!
Points in time in Coordinated Universal Time, in the calendar of today extended to all years, and
their text in headers: `Fri, 16 Oct 2026 09:05:07 GMT`.
-/
namespace SwiftCodec

/-- Seconds since the beginning of 1970, and nanoseconds. During a leap second the seconds stand
still and the nanoseconds pass a thousand million. -/
structure Time where
  seconds : Int
  nanoseconds : Nat
deriving DecidableEq, Repr, Inhabited

namespace Time

/-- The beginning of the year -262143 and the end of the year 262142. -/
def earliest : Int := -8334601228800
def latest : Int := 8210266876799

/-- Times that can be written. A leap second may only follow the last second of a minute. -/
def isRepresentable (t : Time) : Bool :=
  earliest ≤ t.seconds && t.seconds ≤ latest &&
    (t.nanoseconds < 1000000000 || (t.nanoseconds < 2000000000 && t.seconds % 60 = 59))

structure Date where
  year : Int
  month : Nat
  day : Nat
deriving DecidableEq, Repr

/-- The date of a number of days after 1 January 1970. Years are counted from March, in cycles of
four hundred, so that the leap day is the last of its year. -/
def dateOfDays (days : Int) : Date :=
  let z := days + 719468
  let era := z.fdiv 146097
  let dayOfEra := (z - era * 146097).toNat
  let yearOfEra :=
    (dayOfEra - dayOfEra / 1460 + dayOfEra / 36524 - dayOfEra / 146096) / 365
  let dayOfYear := dayOfEra - (365 * yearOfEra + yearOfEra / 4 - yearOfEra / 100)
  let m := (5 * dayOfYear + 2) / 153
  let day := dayOfYear - (153 * m + 2) / 5 + 1
  let month := if m < 10 then m + 3 else m - 9
  ⟨era * 400 + yearOfEra + (if month ≤ 2 then 1 else 0), month, day⟩

def weekdays : List String := ["Sun", "Mon", "Tue", "Wed", "Thu", "Fri", "Sat"]

def months : List String :=
  ["Jan", "Feb", "Mar", "Apr", "May", "Jun", "Jul", "Aug", "Sep", "Oct", "Nov", "Dec"]

/-- A number with zeros in front to make up a width. -/
def padded (width n : Nat) : String :=
  let digits := toString n
  String.ofList (List.replicate (width - digits.length) '0') ++ digits

/-- At least four digits; a year past 9999 or before 0 has a sign. -/
def yearText (y : Int) : String :=
  (if y < 0 then "-" else if 9999 < y then "+" else "") ++ padded 4 y.natAbs

def text (t : Time) : String :=
  let days := t.seconds.fdiv 86400
  let second := (t.seconds.fmod 86400).toNat
  let date := dateOfDays days
  let weekday := (days + 4).fmod 7
  let leap := if 1000000000 ≤ t.nanoseconds then 1 else 0
  weekdays.getD weekday.toNat "" ++ ", " ++ padded 2 date.day ++ " " ++
    months.getD (date.month - 1) "" ++ " " ++ yearText date.year ++ " " ++
    padded 2 (second / 3600) ++ ":" ++ padded 2 (second / 60 % 60) ++ ":" ++
    padded 2 (second % 60 + leap) ++ " GMT"

end Time

end SwiftCodec
