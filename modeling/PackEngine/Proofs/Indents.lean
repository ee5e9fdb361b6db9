import Mathlib.Data.List.DropRight
import PackEngine.Proofs.PrintedResults
import PackEngine.Proofs.TraceLines

/-! Indents of traces. The line of a command, a call or a result is indented by its depth. Errors
and messages are indented below the last such line, and each error moves those that follow it one
level further in. So they all stand on one level only if none of them follows an error. -/
namespace PackEngine

namespace PrintItem

/-- An item that has been written, with the result that is put behind it. -/
abbrev Record := PrintItem × Option Int32

def depth? : PrintItem → Option Nat
  | .event (.command depth _) => some depth
  | .event (.returned depth _ _) => some depth
  | .event (.call depth _ _) => some depth
  | _ => none

def isError : PrintItem → Bool
  | .event (.error _) => true
  | _ => false

def isNote : PrintItem → Bool
  | .event (.error _) => true
  | .message _ => true
  | _ => false

def lastDepth (written : List Record) : Nat :=
  (written.filterMap (·.1.depth?)).getLast?.getD 0

def errorsSince (written : List Record) : Nat :=
  (written.rtakeWhile (·.1.depth?.isNone)).countP (·.1.isError)

/-- The blanks before an item, if errors and messages go so many levels below the last depth. -/
def blanks (levels : List Record → Nat) (written : List Record) (item : PrintItem) : Nat :=
  match item.depth? with
  | some depth => 4 * (depth + 1)
  | none => if item.isNote then 4 * (lastDepth written + 1 + levels written) else 0

def tagged : PrintItem → String
  | .event (.command _ text) => "[C] " ++ text
  | .event (.returned _ text value) => "[R = " ++ toString value.toInt ++ "] " ++ text
  | .event (.call _ function lines) => "[F] " ++ function.render ++ " size=" ++ toString lines
  | .event (.error text) => "[E] " ++ text
  | .message text => "[M] " ++ text
  | .heading text => text
  | .flush => ""

def linesBehind (levels : List Record → Nat) (written : List Record) : List Record → List String
  | [] => []
  | (item, result) :: rest =>
      (String.ofList (List.replicate (item.blanks levels written) ' ') ++ item.tagged ++
        resultText result) :: linesBehind levels (written ++ [(item, result)]) rest

def indentedText (levels : List Record → Nat) (items : List PrintItem) : String :=
  String.join ((linesBehind levels [] (records items)).map (· ++ "\n"))

/-- No error or message follows an error, unless a record with a depth stands in between. -/
def ErrorsLast (items : List PrintItem) : Prop :=
  ∀ before record after, records items = before ++ record :: after → record.1.isNote →
    errorsSince before = 0

/-! The level that is saved. -/

theorem lastDepth_concat (written : List Record) (record : Record) :
    lastDepth (written ++ [record]) = record.1.depth?.getD (lastDepth written) := by
  unfold lastDepth
  rw [List.filterMap_append]
  cases depth : record.1.depth? <;> simp [depth]

theorem errorsSince_concat (written : List Record) (record : Record) :
    errorsSince (written ++ [record]) =
      if record.1.depth?.isSome then 0
      else errorsSince written + if record.1.isError then 1 else 0 := by
  unfold errorsSince
  rw [List.rtakeWhile_concat]
  cases record.1.depth? <;> simp [List.countP_append]

/-- A printer saves the last depth, and moves in with each error. -/
theorem indentBehind_eq (written : List Record) (record : Record) :
    record.1.indentBehind (lastDepth written + errorsSince written) =
      lastDepth (written ++ [record]) + errorsSince (written ++ [record]) := by
  rw [lastDepth_concat, errorsSince_concat]
  obtain ⟨item, result⟩ := record
  cases item with
  | event event => cases event <;> simp [indentBehind, depth?, isError, Nat.add_assoc]
  | _ => simp [indentBehind, depth?, isError]

theorem line_eq (written : List Record) (item : PrintItem) :
    item.line (lastDepth written + errorsSince written) =
      String.ofList (List.replicate
        (item.blanks (fun written => errorsSince written + 1) written) ' ') ++ item.tagged := by
  have level : lastDepth written + errorsSince written + 1 + 1 =
      lastDepth written + 1 + (errorsSince written + 1) := by omega
  cases item with
  | event event =>
    cases event <;>
      simp [line, blanks, depth?, isNote, tagged, Printer.margin, level, String.append_assoc]
  | _ => simp [line, blanks, depth?, isNote, tagged, Printer.margin, level, String.append_assoc]

theorem linesFrom_eq (written rest : List Record) :
    linesFrom (lastDepth written + errorsSince written) rest =
      linesBehind (fun written => errorsSince written + 1) written rest := by
  induction rest generalizing written with
  | nil => rfl
  | cons record rest ih =>
    obtain ⟨item, result⟩ := record
    rw [linesFrom, linesBehind, indentBehind_eq written (item, result), ih, line_eq]

/-! Traces that are indented otherwise. -/

variable {levels other : List Record → Nat}

theorem blanks_le (item : PrintItem) {written : List Record}
    (le : levels written ≤ other written) :
    item.blanks levels written ≤ item.blanks other written := by
  unfold blanks
  cases item.depth? with
  | some depth => exact Nat.le_refl _
  | none =>
    dsimp only
    split <;> omega

theorem depth?_of_isNote {item : PrintItem} (note : item.isNote) : item.depth? = none := by
  cases item with
  | event event => cases event <;> trivial
  | _ => rfl

theorem blanks_lt {item : PrintItem} {written : List Record} (note : item.isNote)
    (less : levels written < other written) :
    item.blanks levels written < item.blanks other written := by
  unfold blanks
  rw [depth?_of_isNote note]
  simp only [note, if_true]
  omega

theorem blanks_congr (item : PrintItem) {written : List Record}
    (same : item.isNote → levels written = other written) :
    item.blanks levels written = item.blanks other written := by
  unfold blanks
  cases item.depth? with
  | some depth => rfl
  | none =>
    dsimp only
    split
    · next note => rw [same note]
    · rfl

theorem linesBehind_congr {written rest : List Record}
    (same : ∀ before record after, rest = before ++ record :: after → record.1.isNote →
      levels (written ++ before) = other (written ++ before)) :
    linesBehind levels written rest = linesBehind other written rest := by
  induction rest generalizing written with
  | nil => rfl
  | cons record rest ih =>
    obtain ⟨item, result⟩ := record
    have here := same [] (item, result) rest rfl
    rw [List.append_nil] at here
    have later : linesBehind levels (written ++ [(item, result)]) rest =
        linesBehind other (written ++ [(item, result)]) rest := by
      refine ih fun before record after split note => ?_
      rw [List.append_assoc]
      exact same _ record after (congrArg ((item, result) :: ·) split) note
    rw [linesBehind, linesBehind, later, item.blanks_congr here]

def width (lines : List String) : Nat := (lines.map (·.length + 1)).sum

theorem length_join_lines (lines : List String) :
    (String.join (lines.map (· ++ "\n"))).length = width lines := by
  rw [String.length_join, List.map_map]
  exact congrArg List.sum (List.map_congr_left fun line _ => String.length_append line "\n")

theorem width_linesBehind_cons (levels : List Record → Nat) (written rest : List Record)
    (record : Record) :
    width (linesBehind levels written (record :: rest)) =
      record.1.blanks levels written +
        (record.1.tagged.length + (resultText record.2).length + 1) +
        width (linesBehind levels (written ++ [record]) rest) := by
  obtain ⟨item, result⟩ := record
  simp only [width, linesBehind, List.map_cons, List.sum_cons, String.length_append,
    String.length_ofList, List.length_replicate]
  omega

theorem width_le (written rest : List Record) (le : ∀ written, levels written ≤ other written) :
    width (linesBehind levels written rest) ≤ width (linesBehind other written rest) := by
  induction rest generalizing written with
  | nil => exact Nat.le_refl _
  | cons record rest ih =>
    rw [width_linesBehind_cons, width_linesBehind_cons]
    have here := record.1.blanks_le (le written)
    have later := ih (written ++ [record])
    omega

theorem width_lt {written before after : List Record} {record : Record}
    (le : ∀ written, levels written ≤ other written) (note : record.1.isNote)
    (less : levels (written ++ before) < other (written ++ before)) :
    width (linesBehind levels written (before ++ record :: after)) <
      width (linesBehind other written (before ++ record :: after)) := by
  induction before generalizing written with
  | nil =>
    rw [List.append_nil] at less
    rw [List.nil_append, width_linesBehind_cons, width_linesBehind_cons]
    have here := blanks_lt note less
    have later := width_le (written ++ [record]) after le
    omega
  | cons first before ih =>
    rw [List.append_cons] at less
    rw [List.cons_append, width_linesBehind_cons, width_linesBehind_cons]
    have here := first.1.blanks_le (le written)
    have later := ih less
    omega

theorem indentedText_eq_iff (items : List PrintItem) :
    indentedText (fun written => errorsSince written + 1) items = indentedText (fun _ => 1) items ↔
      ErrorsLast items := by
  constructor
  · intro same before record after split note
    by_contra behind
    have less : (1 : Nat) < errorsSince ([] ++ before) + 1 :=
      Nat.succ_lt_succ (Nat.pos_of_ne_zero behind)
    have longer : width (linesBehind (fun _ => 1) [] (before ++ record :: after)) <
        width (linesBehind (fun written => errorsSince written + 1) []
          (before ++ record :: after)) :=
      width_lt (fun written => Nat.le_add_left 1 (errorsSince written)) note less
    rw [← split, ← length_join_lines, ← length_join_lines] at longer
    exact longer.ne' (congrArg String.length same)
  · intro last
    have lines : linesBehind (fun written => errorsSince written + 1) [] (records items) =
        linesBehind (fun _ => 1) [] (records items) :=
      linesBehind_congr fun before record after split note =>
        congrArg (· + 1) (last before record after split note)
    unfold indentedText
    rw [lines]

end PrintItem

namespace Printer

open PrintItem

theorem written_printed (items : List PrintItem) :
    (printed (items ++ [.flush])).sink.written =
      (indentedText (fun written => errorsSince written + 1) items).toUTF8 := by
  have closed : Closed 0 {} := ⟨Unbounded.printed [], rfl⟩
  have lines : linesFrom 0 (records items) =
      linesBehind (fun written => errorsSince written + 1) [] (records items) :=
    linesFrom_eq [] (records items)
  unfold indentedText
  rw [← lines]
  exact Eq.trans (closed.finish items) ByteArray.empty_append

/-- All lines of a trace are indented by depth; errors and messages one level below the last line
with a depth, and one level further for each error that stands in between. They all stand on the
first of these levels only if there are no such errors. -/
theorem indents_follow_depths (items : List PrintItem) :
    (printed (items ++ [.flush])).sink.written =
        (indentedText (fun written => errorsSince written + 1) items).toUTF8 ∧
      ((printed (items ++ [.flush])).sink.written = (indentedText (fun _ => 1) items).toUTF8 ↔
        ErrorsLast items) := by
  rw [written_printed]
  exact ⟨rfl, String.toByteArray_inj.trans (indentedText_eq_iff items)⟩

end Printer

/-- A line that fails for two sources. -/
def failingTwicePack : Pack where
  functions :=
    [(⟨"minecraft", "f", .refl true, .refl true⟩, { lines := [.obj [
        ("modifiers", .arr [.arr [.str "As", .arr [.str "a", .str "b"]]]),
        ("run", .arr [.str "Function", .str "missing"])]] })]

def failingTwiceRun : Machine packWords :=
  let request : RunRequest := { target := "f", traced := true }
  request.opening ((request.functions failingTwicePack).toOption.getD []) {}

def failingTwiceItems : List PrintItem :=
  [.event (.call 0 ⟨"minecraft", "f", .refl true, .refl true⟩ 1),
    .event (.command 1 "execute as a,b run function missing"),
    .event (.error "Unknown function minecraft:missing"),
    .event (.error "Unknown function minecraft:missing")]

/-- The errors of two sources do not stand on one level. -/
theorem forks_indent_errors_further :
    failingTwiceRun.Runs (packRules failingTwicePack) 3 ∧
    ((failingTwiceRun.after (packRules failingTwicePack) 3).verdict?).isSome ∧
    failingTwiceRun.items .given (failingTwiceRun.after (packRules failingTwicePack) 3) =
      failingTwiceItems ∧
    (Printer.printed (failingTwiceItems ++ [.flush])).sink.written ≠
      (PrintItem.indentedText (fun _ => 1) failingTwiceItems).toUTF8 := by
  have runs : failingTwiceRun.Runs (packRules failingTwicePack) 3 := by
    simp only [Machine.runs_succ_iff]
    exact ⟨rfl, rfl, rfl, Machine.runs_zero _ _⟩
  refine ⟨runs, rfl, rfl, fun same => ?_⟩
  rw [Printer.written_printed] at same
  have last := (PrintItem.indentedText_eq_iff _).mp (String.toByteArray_inj.mp same)
  have atEnd := last (PrintItem.records (failingTwiceItems.take 3)) _ [] rfl rfl
  cases atEnd

end PackEngine
