import PackEngine.World

/-! Printers whose sink takes every write. The line of a command stays open until the next item is
printed; what a leaf returns is put on an open line, whosever line that is. -/
namespace PackEngine

namespace Printer

structure Unbounded (p : Printer) : Prop where
  failed : p.failed = false
  room : p.sink.room = none

def Appends (p q : Printer) (text : String) : Prop :=
  q.sink.written = p.sink.written ++ text.toUTF8

variable {p q : Printer}

theorem Appends.trans {r : Printer} {first second : String} (before : p.Appends q first)
    (after : q.Appends r second) : p.Appends r (first ++ second) := by
  unfold Appends at *
  rw [after, before, ByteArray.append_assoc]
  exact congrArg (p.sink.written ++ ·) String.toByteArray_append.symm

/-! Only commands leave a line open. -/

@[simp] theorem put_waiting (p : Printer) (text : String) : (p.put text).waiting = p.waiting := by
  unfold put
  split <;> rfl

@[simp] theorem indentAndSave_waiting (p : Printer) (level : Nat) :
    (p.indentAndSave level).waiting = p.waiting := p.put_waiting _

@[simp] theorem newLine_waiting (p : Printer) : p.newLine.waiting = false := by
  unfold newLine
  split
  · rfl
  · next closed => exact Bool.eq_false_iff.mpr closed

theorem waiting_item (p : Printer) (item : PrintItem) :
    (p.item item).waiting = true ↔ ∃ depth text, item = .event (.command depth text) := by
  cases item with
  | event event =>
    cases event with
    | command depth text => simp [Printer.item, Printer.event]
    | returned depth text value =>
      cases waits : p.waiting <;> simp [Printer.item, Printer.event, waits]
    | call depth function lines => simp [Printer.item, Printer.event]
    | error message => simp [Printer.item, Printer.event]
  | message text => simp [Printer.item, Printer.indent]
  | heading text => simp [Printer.item]
  | flush => simp [Printer.item, flush]

def printed (items : List PrintItem) : Printer := items.foldl item {}

theorem printed_append (before items : List PrintItem) :
    printed (before ++ items) = items.foldl item (printed before) := List.foldl_append

theorem waiting_printed (items : List PrintItem) :
    (printed items).waiting = true ↔
      ∃ earlier depth text, items = earlier ++ [.event (.command depth text)] := by
  obtain rfl | ⟨earlier, last, rfl⟩ := items.eq_nil_or_concat
  · simp [printed]
  · rw [List.concat_eq_append, printed_append]
    refine ((printed earlier).waiting_item last).trans ?_
    simp

/-! What is written. -/

namespace Unbounded

theorem put (h : p.Unbounded) (text : String) :
    (p.put text).Unbounded ∧ p.Appends (p.put text) text := by
  unfold Printer.put Appends Sink.put
  rw [h.failed, h.room]
  exact ⟨⟨rfl, rfl⟩, rfl⟩

theorem newLine (h : p.Unbounded) : p.newLine.Unbounded := by
  unfold Printer.newLine
  split
  · exact ⟨(h.put "\n").1.failed, (h.put "\n").1.room⟩
  · exact h

theorem indentAndSave (h : p.Unbounded) (level : Nat) :
    (p.indentAndSave level).Unbounded ∧ p.Appends (p.indentAndSave level) (margin level) :=
  ⟨⟨(h.put (margin level)).1.failed, (h.put (margin level)).1.room⟩, (h.put (margin level)).2⟩

theorem line (h : p.Unbounded) (level : Nat) (text : String) :
    ((p.indentAndSave level).put text).Unbounded ∧
      p.Appends ((p.indentAndSave level).put text) (margin level ++ text) := by
  obtain ⟨indented, margin⟩ := h.indentAndSave level
  obtain ⟨written, text⟩ := indented.put text
  exact ⟨written, margin.trans text⟩

theorem item (h : p.Unbounded) (item : PrintItem) : (p.item item).Unbounded := by
  cases item with
  | event event =>
    cases event with
    | command depth text =>
      have line := (h.newLine.line depth ("[C] " ++ text)).1
      exact ⟨line.failed, line.room⟩
    | returned depth text value =>
      simp only [Printer.item, Printer.event]
      split
      · have completed := (h.put (" -> " ++ toString value.toInt ++ "\n")).1
        exact ⟨completed.failed, completed.room⟩
      · exact (h.line depth _).1
    | call depth function lines => exact (h.newLine.line depth _).1
    | error message => exact (h.newLine.line _ _).1
  | message text => exact ((h.newLine.put (margin _)).1.put _).1
  | heading text => exact (h.newLine.put _).1
  | flush => exact ⟨rfl, h.newLine.room⟩

theorem printed (items : List PrintItem) : (printed items).Unbounded := by
  unfold Printer.printed
  have all (p : Printer) (h : p.Unbounded) : (items.foldl Printer.item p).Unbounded := by
    induction items generalizing p with
    | nil => exact h
    | cons item rest ih => exact ih _ (h.item item)
  exact all {} ⟨rfl, rfl⟩

theorem begins (h : p.Unbounded) (depth : Nat) (text : String) :
    p.newLine.Appends (p.item (.event (.command depth text))) (margin depth ++ ("[C] " ++ text)) :=
  (h.newLine.line depth _).2

theorem completes (h : p.Unbounded) (waits : p.waiting = true) (depth : Nat) (text : String)
    (value : Int32) : p.Appends (p.item (.event (.returned depth text value)))
      (" -> " ++ toString value.toInt ++ "\n") := by
  simp only [Printer.item, Printer.event, waits, if_true]
  exact (h.put _).2

theorem separate (h : p.Unbounded) (closed : p.waiting = false) (depth : Nat) (text : String)
    (value : Int32) : p.Appends (p.item (.event (.returned depth text value)))
      (margin depth ++ ("[R = " ++ toString value.toInt ++ "] " ++ text ++ "\n")) := by
  simp only [Printer.item, Printer.event, closed, Bool.false_eq_true, if_false]
  exact (h.line depth _).2

end Unbounded

end Printer

end PackEngine
