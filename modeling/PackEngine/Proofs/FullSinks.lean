import Mathlib.Data.List.Induction
import PackEngine.Proofs.Printers

/-! Printers whose sink has room for so many bytes. What an item is written as depends on the layout
so far and on nothing else, so a full sink cuts the text off and leaves the layout as it is. -/
namespace PackEngine

/-- What a printer goes by: the last indent that it has saved, and whether a line is open. -/
structure Layout where
  lastIndent : Nat := 0
  waiting : Bool := false
deriving DecidableEq, Repr

namespace Layout

def lineEnd (layout : Layout) : String := if layout.waiting then "\n" else ""

def text (layout : Layout) : PrintItem → String
  | .event (.command depth text) =>
      layout.lineEnd ++ (Printer.margin depth ++ ("[C] " ++ text))
  | .event (.returned depth text value) =>
      if layout.waiting then " -> " ++ toString value.toInt ++ "\n"
      else Printer.margin depth ++ ("[R = " ++ toString value.toInt ++ "] " ++ text ++ "\n")
  | .event (.call depth function lines) =>
      layout.lineEnd ++ (Printer.margin depth ++
        ("[F] " ++ function.render ++ " size=" ++ toString lines ++ "\n"))
  | .event (.error message) =>
      layout.lineEnd ++ (Printer.margin (layout.lastIndent + 1) ++ ("[E] " ++ message ++ "\n"))
  | .message text =>
      layout.lineEnd ++ (Printer.margin (layout.lastIndent + 1) ++ ("[M] " ++ text ++ "\n"))
  | .heading text => layout.lineEnd ++ (text ++ "\n")
  | .flush => layout.lineEnd

def next (layout : Layout) : PrintItem → Layout
  | .event (.command depth _) => ⟨depth, true⟩
  | .event (.returned depth _ _) => ⟨if layout.waiting then layout.lastIndent else depth, false⟩
  | .event (.call depth _ _) => ⟨depth, false⟩
  | .event (.error _) => ⟨layout.lastIndent + 1, false⟩
  | .message _ => ⟨layout.lastIndent, false⟩
  | .heading _ => ⟨layout.lastIndent, false⟩
  | .flush => ⟨layout.lastIndent, false⟩

end Layout

namespace Sink

theorem extract_whole {bytes : ByteArray} {room : Nat} (fits : bytes.size ≤ room) :
    bytes.extract 0 room = bytes := by
  apply ByteArray.ext
  rw [ByteArray.data_extract]
  exact Array.extract_eq_self_of_le fits

theorem extract_nothing (bytes : ByteArray) : bytes.extract 0 0 = ByteArray.empty := by
  apply ByteArray.ext
  simp

/-- Of a text a sink takes as many bytes as it has room for. -/
theorem put_room (written : ByteArray) (room : Nat) (text : String) :
    ({ written := written, room := some room } : Sink).put text =
      ({ written := written ++ text.toUTF8.extract 0 room
         room := some (room - text.toUTF8.size) }, decide (text.toUTF8.size ≤ room)) := by
  simp only [put]
  split
  · next fits => rw [extract_whole fits, decide_eq_true fits]
  · next excess => rw [Nat.sub_eq_zero_of_le (by omega), decide_eq_false excess]

end Sink

namespace Printer

variable {p : Printer} {room : Nat}

def layout (p : Printer) : Layout := ⟨p.lastIndent, p.waiting⟩

def inLayout (layout : Layout) (p : Printer) : Printer :=
  { p with lastIndent := layout.lastIndent, waiting := layout.waiting }

@[simp] theorem layout_put (p : Printer) (text : String) : (p.put text).layout = p.layout := by
  unfold put
  split <;> rfl

@[simp] theorem put_inLayout (p : Printer) (layout : Layout) (text : String) :
    (p.inLayout layout).put text = (p.put text).inLayout layout := by
  unfold put inLayout
  split <;> rfl

theorem put_dropped (failed : p.failed = true) (text : String) : p.put text = p := if_pos failed

theorem put_room (fine : p.failed = false) (left : p.sink.room = some room) (text : String) :
    p.put text =
      { p with
        sink :=
          { written := p.sink.written ++ text.toUTF8.extract 0 room
            room := some (room - text.toUTF8.size) }
        failed := decide (room < text.toUTF8.size) } := by
  obtain ⟨⟨written, room⟩, lastIndent, waiting, failed⟩ := p
  cases fine
  cases left
  simp only [put, Sink.put_room, Bool.false_eq_true, if_false, ← decide_not, Nat.not_le]

/-- Nothing is put out for the empty text, whatever room there is. -/
@[simp] theorem put_empty (p : Printer) : p.put "" = p := by
  obtain ⟨⟨written, room⟩, lastIndent, waiting, failed⟩ := p
  cases failed <;> cases room <;> simp [put, Sink.put]

theorem put_put (p : Printer) (first second : String) :
    (p.put first).put second = p.put (first ++ second) := by
  obtain ⟨⟨written, room⟩, lastIndent, waiting, failed⟩ := p
  cases failed with
  | true => rfl
  | false =>
    cases room with
    | none => simp [put, Sink.put, ByteArray.append_assoc]
    | some room =>
      have size : (first ++ second).toUTF8.size = first.toUTF8.size + second.toUTF8.size := by
        simp
      have taken : (first ++ second).toUTF8.extract 0 room =
          first.toUTF8.extract 0 room ++ second.toUTF8.extract 0 (room - first.toUTF8.size) := by
        simp [ByteArray.extract_append]
      rw [put_room rfl rfl first, put_room rfl rfl (first ++ second), size, taken]
      by_cases fits : first.toUTF8.size ≤ room
      · have both : room - first.toUTF8.size < second.toUTF8.size ↔
            room < first.toUTF8.size + second.toUTF8.size := by omega
        rw [put_room (decide_eq_false (Nat.not_lt.mpr fits)) rfl]
        simp only [both, ByteArray.append_assoc, Nat.sub_sub]
      · have excess : room < first.toUTF8.size + second.toUTF8.size := by omega
        have spent : room - first.toUTF8.size = 0 := by omega
        rw [put_dropped (decide_eq_true (Nat.lt_of_not_le fits))]
        simp only [Nat.lt_of_not_le fits, excess, spent, Sink.extract_nothing,
          ByteArray.append_empty, Nat.sub_eq_zero_of_le (Nat.le_of_lt excess)]

/-! An item is one text, whose pieces are put out one behind the other, and a layout. -/

@[simp] theorem layout_inLayout (p : Printer) (layout : Layout) :
    (p.inLayout layout).layout = layout := rfl

@[simp] theorem lastIndent_inLayout (p : Printer) (layout : Layout) :
    (p.inLayout layout).lastIndent = layout.lastIndent := rfl

@[simp] theorem inLayout_inLayout (p : Printer) (first second : Layout) :
    (p.inLayout first).inLayout second = p.inLayout second := rfl

theorem opened_eq (p : Printer) :
    ({ p with waiting := true } : Printer) = p.inLayout ⟨p.layout.lastIndent, true⟩ := rfl

theorem closed_eq (p : Printer) :
    ({ p with waiting := false } : Printer) = p.inLayout ⟨p.layout.lastIndent, false⟩ := rfl

theorem indentAndSave_eq (p : Printer) (level : Nat) :
    p.indentAndSave level = (p.put (margin level)).inLayout ⟨level, p.layout.waiting⟩ := by
  rw [← layout_put p (margin level)]
  rfl

theorem newLine_eq (p : Printer) :
    p.newLine = (p.put p.layout.lineEnd).inLayout ⟨p.layout.lastIndent, false⟩ := by
  unfold newLine
  split
  · next waits =>
    have waits : p.layout.waiting = true := waits
    simp [closed_eq, Layout.lineEnd, waits]
  · next closed =>
    have closed : p.layout.waiting = false := Bool.eq_false_iff.mpr closed
    rw [Layout.lineEnd, closed, if_neg Bool.false_ne_true, put_empty, ← closed]
    rfl

theorem item_eq (p : Printer) {item : PrintItem} (goes : item ≠ .flush) :
    p.item item = (p.put (p.layout.text item)).inLayout (p.layout.next item) := by
  cases item with
  | flush => exact absurd rfl goes
  | heading text => simp [Printer.item, newLine_eq, Layout.text, Layout.next, put_put]
  | message text =>
    simp [Printer.item, newLine_eq, indent, Layout.text, Layout.next, put_put, String.append_assoc]
  | event event =>
    cases event with
    | command depth text =>
      rw [Printer.item, Printer.event, opened_eq]
      simp [Layout.text, Layout.next, newLine_eq, put_put, indentAndSave_eq, String.append_assoc]
    | returned depth text value =>
      have same : p.waiting = p.layout.waiting := rfl
      cases waits : p.layout.waiting <;>
        simp [Printer.item, Printer.event, Layout.text, Layout.next, same, waits, put_put,
          indentAndSave_eq, closed_eq, String.append_assoc]
    | _ =>
      simp [Printer.item, Printer.event, Layout.text, Layout.next, newLine_eq, put_put,
        indentAndSave_eq, String.append_assoc]

/-- A flush puts the line end out and says whether all writes went through; none counts as failed
any more. -/
theorem flush_eq (p : Printer) :
    p.flush = (!(p.put p.layout.lineEnd).failed,
      { (p.put p.layout.lineEnd).inLayout ⟨p.layout.lastIndent, false⟩ with failed := false }) := by
  unfold flush
  rw [newLine_eq]
  rfl

/-! Cutting off. -/

def printedInto (room : Nat) (items : List PrintItem) : Printer :=
  items.foldl item { sink := { room := some room } }

/-- The second printer has written what the first one has, up to the room that its sink began with;
it owes an error if the text since the last report, which ended at `told`, went past that. -/
structure Cuts (room told : Nat) (full cut : Printer) : Prop where
  unbounded : full.Unbounded
  reported : told ≤ full.sink.written.size
  written : cut.sink.written = full.sink.written.extract 0 room
  left : cut.sink.room = some (room - full.sink.written.size)
  failed : cut.failed = true ↔ room < full.sink.written.size ∧ told < full.sink.written.size
  layout : cut.layout = full.layout

namespace Cuts

variable {told : Nat} {full cut : Printer}

/-- A text goes on where the last one ended, and after an error there is no room. -/
theorem put (h : Cuts room told full cut) (text : String) :
    Cuts room told (full.put text) (cut.put text) := by
  obtain ⟨unbounded, appends⟩ := h.unbounded.put text
  have size : (full.put text).sink.written.size =
      full.sink.written.size + text.toUTF8.size := by
    rw [appends, ByteArray.size_append]
  have taken : (full.put text).sink.written.extract 0 room =
      cut.sink.written ++ text.toUTF8.extract 0 (room - full.sink.written.size) := by
    rw [appends, ByteArray.extract_append, Nat.zero_sub, h.written]
  have begins := h.reported
  cases failed : cut.failed with
  | true =>
    have excess := h.failed.mp failed
    have spent : room - full.sink.written.size = 0 := by omega
    rw [put_dropped failed]
    refine ⟨unbounded, by omega, ?_, ?_, ?_, by rw [layout_put, h.layout]⟩
    · rw [taken, spent, Sink.extract_nothing, ByteArray.append_empty]
    · rw [h.left, size]
      congr 1
      omega
    · rw [failed, size, eq_self, true_iff]
      omega
  | false =>
    have fine : ¬(room < full.sink.written.size ∧ told < full.sink.written.size) := by
      rw [← h.failed, failed]
      exact Bool.false_ne_true
    rw [put_room failed h.left]
    refine ⟨unbounded, by omega, taken.symm, ?_, ?_, h.layout.trans (layout_put full text).symm⟩
    · rw [size, Nat.sub_sub]
    · rw [size, decide_eq_true_iff]
      omega

theorem item (h : Cuts room told full cut) {item : PrintItem} (goes : item ≠ .flush) :
    Cuts room told (full.item item) (cut.item item) := by
  obtain ⟨unbounded, reported, written, left, failed, -⟩ := h.put (full.layout.text item)
  rw [item_eq full goes, item_eq cut goes, h.layout]
  exact ⟨⟨unbounded.failed, unbounded.room⟩, reported, written, left, failed, rfl⟩

theorem flush (h : Cuts room told full cut) :
    (cut.flush.1 = false ↔
      room < full.flush.2.sink.written.size ∧ told < full.flush.2.sink.written.size) ∧
    Cuts room full.flush.2.sink.written.size full.flush.2 cut.flush.2 := by
  obtain ⟨unbounded, reported, written, left, failed, -⟩ := h.put full.layout.lineEnd
  rw [flush_eq, flush_eq, h.layout, Bool.not_eq_false']
  refine ⟨failed, ⟨rfl, unbounded.room⟩, Nat.le_refl _, written, left, ?_, rfl⟩
  simp

end Cuts

/-- No flush among the items has reported an error. -/
def Unreported (room : Nat) (items : List PrintItem) : Prop :=
  ∀ before after, items = before ++ .flush :: after → (printedInto room before).flush.1 = true

theorem Unreported.before {items : List PrintItem} {last : PrintItem}
    (h : Unreported room (items ++ [last])) : Unreported room items := by
  rintro before after rfl
  exact h before (after ++ [last]) (by simp)

/-- As long as no error has been reported, what has been flushed found room. -/
theorem cuts_printed (room : Nat) (items : List PrintItem) :
    ∃ told, Cuts room told (printed items) (printedInto room items) ∧
      (Unreported room items → told ≤ room) := by
  induction items using List.reverseRecOn with
  | nil =>
    refine ⟨0, ⟨Unbounded.printed [], Nat.zero_le _, ?_, rfl, ?_, rfl⟩, fun _ => Nat.zero_le _⟩
    · exact (Sink.extract_whole (Nat.zero_le _)).symm
    · simp [printedInto, printed]
  | append_singleton items last ih =>
    obtain ⟨told, cuts, fits⟩ := ih
    have full : printed (items ++ [last]) = (printed items).item last := printed_append items [last]
    have cut : printedInto room (items ++ [last]) = (printedInto room items).item last :=
      List.foldl_append
    rw [full, cut]
    by_cases goes : last = .flush
    · subst goes
      obtain ⟨reports, cuts⟩ := cuts.flush
      refine ⟨_, cuts, fun unreported => ?_⟩
      have fits := fits unreported.before
      have quiet := unreported items [] rfl
      rw [← Bool.not_eq_false, reports] at quiet
      omega
    · exact ⟨told, cuts.item goes, fun unreported => fits unreported.before⟩

/-- A full sink cuts the text of a trace off and does not move its layout. The error shows at the
first flush up to which there is more text than room. -/
theorem full_sink_cuts (room : Nat) (items : List PrintItem) :
    (printedInto room items).layout = (printed items).layout ∧
    (printedInto room items).sink.written =
      (printed items).sink.written.extract 0 (min room (printed items).sink.written.size) ∧
    (Unreported room items →
      ((printedInto room items).flush.1 = false ↔
        room < (printed items).flush.2.sink.written.size)) := by
  obtain ⟨told, cuts, fits⟩ := cuts_printed room items
  refine ⟨cuts.layout, ?_, fun unreported => ?_⟩
  · rw [cuts.written]
    rcases Nat.le_total room (printed items).sink.written.size with short | whole
    · rw [Nat.min_eq_left short]
    · rw [Nat.min_eq_right whole, Sink.extract_whole whole, Sink.extract_whole (Nat.le_refl _)]
  · have fits := fits unreported
    rw [cuts.flush.1]
    omega

theorem full_sink_cuts_second_heading :
    Unreported 3 [.heading "a", .flush, .heading "bc"] ∧
      (printedInto 3 [.heading "a", .flush, .heading "bc"]).flush.1 = false ∧
      (printedInto 3 [.heading "a", .flush, .heading "bc"]).sink.written = "a\nb".toUTF8 := by
  have cuts := full_sink_cuts 3 [.heading "a", .flush, .heading "bc"]
  have unreported : Unreported 3 [.heading "a", .flush, .heading "bc"] := by
    rintro before after eq
    rcases before with _ | ⟨first, _ | ⟨second, _ | ⟨third, before⟩⟩⟩ <;> simp at eq
    obtain ⟨rfl, -⟩ := eq
    rfl
  exact ⟨unreported, (cuts.2.2 unreported).mpr (by decide +kernel), cuts.2.1.trans rfl⟩

end Printer

end PackEngine
