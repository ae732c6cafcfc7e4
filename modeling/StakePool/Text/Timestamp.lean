/-!
# Timestamps

A timestamp counts seconds from the start of 1970. `Timestamp.text` writes it as a date and a time of day in
UTC, by the Gregorian calendar carried on to all years, year 0 included.
-/

namespace StakePool

structure Date where
  year : Int
  month : Nat
  day : Nat
deriving DecidableEq, Repr

namespace Date

/-- The day that lies `days` after the first of January 1970. Years are counted from the first of March, so that
a leap day comes last, and in eras of 400 years, which all have 146097 days. -/
def ofDays (days : Int) : Date :=
  let fromEpoch := days + 719468
  let era := fromEpoch / 146097
  let dayOfEra := (fromEpoch % 146097).toNat
  let yearOfEra := (dayOfEra - dayOfEra / 1460 + dayOfEra / 36524 - dayOfEra / 146096) / 365
  let dayOfYear := dayOfEra - (365 * yearOfEra + yearOfEra / 4 - yearOfEra / 100)
  let monthFromMarch := (5 * dayOfYear + 2) / 153
  let month := if monthFromMarch < 10 then monthFromMarch + 3 else monthFromMarch - 9
  { year := yearOfEra + era * 400 + (if month ≤ 2 then 1 else 0)
    month
    day := dayOfYear - (153 * monthFromMarch + 2) / 5 + 1 }

end Date

def paddedNumber (width n : Nat) : String :=
  let digits := Nat.toDigits 10 n
  String.ofList (List.replicate (width - digits.length) '0' ++ digits)

/-- A year has at least four digits, and a sign when it is not one of 0 to 9999. -/
def yearText (year : Int) : String :=
  if year < 0 then "-" ++ paddedNumber 4 year.natAbs
  else if 9999 < year then "+" ++ paddedNumber 4 year.natAbs
  else paddedNumber 4 year.natAbs

namespace Timestamp

def earliest : Int := -8334601228800
def latest : Int := 8210266876799

def text (timestamp : Int64) : String :=
  let seconds := timestamp.toInt
  if seconds < earliest ∨ latest < seconds then
    toString seconds
  else
    let date := Date.ofDays (seconds / 86400)
    let secondOfDay := (seconds % 86400).toNat
    yearText date.year ++ "-" ++ paddedNumber 2 date.month ++ "-" ++ paddedNumber 2 date.day ++ "T" ++
      paddedNumber 2 (secondOfDay / 3600) ++ ":" ++ paddedNumber 2 (secondOfDay / 60 % 60) ++ ":" ++
      paddedNumber 2 (secondOfDay % 60) ++ "Z"

end Timestamp

end StakePool
