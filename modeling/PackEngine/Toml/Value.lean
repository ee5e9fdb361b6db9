import PackEngine.Json.Value

/-! Values of TOML documents. -/
namespace PackEngine

structure CalendarDate where
  year : Nat
  month : Nat
  day : Nat
deriving DecidableEq, Repr

structure ClockTime where
  hour : Nat
  minute : Nat
  second : Nat
  nanosecond : Nat
deriving DecidableEq, Repr

inductive ZoneOffset where
  | utc
  | minutes (ahead : Int)
deriving DecidableEq, Repr

/-- A date, a time of day, or both; only both together may have an offset. -/
structure Moment where
  date : Option CalendarDate := none
  time : Option ClockTime := none
  offset : Option ZoneOffset := none
deriving DecidableEq, Repr

/-- At least `width` digits. -/
def padDigits (width n : Nat) : String :=
  let digits := toString n
  String.ofList (List.replicate (width - digits.length) '0') ++ digits

def CalendarDate.render (d : CalendarDate) : String :=
  padDigits 4 d.year ++ "-" ++ padDigits 2 d.month ++ "-" ++ padDigits 2 d.day

/-- Fractions of a second end in their last digit that is not zero. -/
def ClockTime.render (t : ClockTime) : String :=
  let digits := (padDigits 9 t.nanosecond).toList.reverse.dropWhile (· == '0')
  padDigits 2 t.hour ++ ":" ++ padDigits 2 t.minute ++ ":" ++ padDigits 2 t.second ++
    if t.nanosecond = 0 then "" else "." ++ String.ofList digits.reverse

def ZoneOffset.render : ZoneOffset → String
  | .utc => "Z"
  | .minutes ahead =>
      (if ahead < 0 then "-" else "+") ++ padDigits 2 (ahead.natAbs / 60) ++ ":" ++
        padDigits 2 (ahead.natAbs % 60)

def Moment.render (m : Moment) : String :=
  let date := m.date.elim "" CalendarDate.render
  let time := m.time.elim "" ClockTime.render
  date ++ (if m.date.isSome && m.time.isSome then "T" else "") ++ time ++
    m.offset.elim "" ZoneOffset.render

/-- Tables list their entries in the order they were made. -/
inductive Toml where
  | str (s : String)
  | int (n : Int)
  | float (x : Binary64)
  | bool (b : Bool)
  | moment (m : Moment)
  | arr (items : List Toml)
  | table (entries : List (String × Toml))
deriving Inhabited

namespace Toml

/-- The key of the only member of an object that stands for a moment. -/
def momentKey : String := "$__toml_private_datetime"

mutual

/-- Infinities and NaN have no form in the other format, and become null. -/
def toJson : Toml → Json
  | .str s => .str s
  | .int n => .num (.int n)
  | .float x => if x.isFinite then .num (.float x) else .null
  | .bool b => .bool b
  | .moment m => .obj [(momentKey, .str m.render)]
  | .arr items => .arr (itemsToJson items)
  | .table entries => .obj (entriesToJson entries)

def itemsToJson : List Toml → List Json
  | [] => []
  | item :: rest => item.toJson :: itemsToJson rest

def entriesToJson : List (String × Toml) → List (String × Json)
  | [] => []
  | (key, value) :: rest => insertSorted key value.toJson (entriesToJson rest)

end

end Toml

end PackEngine
