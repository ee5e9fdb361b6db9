import PackEngine.Toml.Value

/-! The time of day as names of files carry it. -/
namespace PackEngine.Clock

/-- The date that many days after the first of January 1970. Years are counted from March, so that
a leap day ends one. -/
def dateOfDays (days : Nat) : CalendarDate :=
  let shifted := days + 719468
  let era := shifted / 146097
  let dayOfEra := shifted % 146097
  let yearOfEra := (dayOfEra - dayOfEra / 1460 + dayOfEra / 36524 - dayOfEra / 146096) / 365
  let dayOfYear := dayOfEra - (365 * yearOfEra + yearOfEra / 4 - yearOfEra / 100)
  let monthFromMarch := (5 * dayOfYear + 2) / 153
  let day := dayOfYear - (153 * monthFromMarch + 2) / 5 + 1
  let month := if monthFromMarch < 10 then monthFromMarch + 3 else monthFromMarch - 9
  ⟨yearOfEra + era * 400 + (if month ≤ 2 then 1 else 0), month, day⟩

/-- Date and time of a count of seconds since 1970, in universal time. -/
def stamp (seconds : Nat) : String :=
  let ofDay := seconds % 86400
  (dateOfDays (seconds / 86400)).render ++ "_" ++ padDigits 2 (ofDay / 3600) ++ "." ++
    padDigits 2 (ofDay / 60 % 60) ++ "." ++ padDigits 2 (ofDay % 60)

example : stamp 951782400 = "2000-02-29_00.00.00" := by cbv

example : stamp 1767225599 = "2025-12-31_23.59.59" := by cbv

/-- The digits a text begins with. -/
def leadingNumber (text : String) : Nat :=
  (text.toList.takeWhile Char.isDigit).foldl (fun n c => n * 10 + (c.toNat - '0'.toNat)) 0

/-- Seconds since 1970, from the system's record of its start and the seconds that it is up. -/
def secondsOf (statistics uptime : String) : Nat :=
  let mark := "btime "
  let started := (statistics.splitOn "\n").find? (·.startsWith mark)
  leadingNumber (String.ofList ((started.getD "").toList.drop mark.length)) + leadingNumber uptime

end PackEngine.Clock
