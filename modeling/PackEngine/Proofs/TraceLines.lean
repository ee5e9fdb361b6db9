import PackEngine.Proofs.FullSinks
import PackEngine.Proofs.Loading

/-! Lines of traces. A printer that is flushed at the end has written one line for each item, in
order. Only a result that a command is followed by has none of its own: it ends the command's. -/
namespace PackEngine

namespace PrintItem

def records : List PrintItem → List (PrintItem × Option Int32)
  | [] => []
  | .event (.command depth text) :: .event (.returned _ _ value) :: rest =>
      (.event (.command depth text), some value) :: records rest
  | .flush :: rest => records rest
  | item :: rest => (item, none) :: records rest

def line (lastIndent : Nat) : PrintItem → String
  | .event (.command depth text) => Printer.margin depth ++ "[C] " ++ text
  | .event (.returned depth text value) =>
      Printer.margin depth ++ "[R = " ++ toString value.toInt ++ "] " ++ text
  | .event (.call depth function lines) =>
      Printer.margin depth ++ "[F] " ++ function.render ++ " size=" ++ toString lines
  | .event (.error text) => Printer.margin (lastIndent + 1) ++ "[E] " ++ text
  | .message text => Printer.margin (lastIndent + 1) ++ "[M] " ++ text
  | .heading text => text
  | .flush => ""

/-- The indent that errors and messages behind an item go by. -/
def indentBehind (lastIndent : Nat) : PrintItem → Nat
  | .event (.command depth _) => depth
  | .event (.returned depth _ _) => depth
  | .event (.call depth _ _) => depth
  | .event (.error _) => lastIndent + 1
  | _ => lastIndent

def resultText : Option Int32 → String
  | some value => " -> " ++ toString value.toInt
  | none => ""

def linesFrom (lastIndent : Nat) : List (PrintItem × Option Int32) → List String
  | [] => []
  | (item, result) :: rest =>
      (item.line lastIndent ++ resultText result) :: linesFrom (item.indentBehind lastIndent) rest

def traceLines (items : List PrintItem) : List String := linesFrom 0 (records items)

def OneLine : PrintItem → Prop
  | .event (.command _ text) => '\n' ∉ text.toList
  | .event (.returned _ text _) => '\n' ∉ text.toList
  | .event (.call _ _ _) => True
  | .event (.error text) => '\n' ∉ text.toList
  | .message text => '\n' ∉ text.toList
  | .heading text => '\n' ∉ text.toList
  | .flush => True

def Returns (item : PrintItem) : Prop :=
  ∃ depth text value, item = .event (.returned depth text value)

end PrintItem

/-! What is written where no line is open. -/

namespace Layout

theorem text_closed (level : Nat) {item : PrintItem} (goes : item ≠ .flush) :
    (⟨level, false⟩ : Layout).text item =
      item.line level ++ if (Layout.next ⟨level, false⟩ item).waiting then "" else "\n" := by
  cases item with
  | flush => exact absurd rfl goes
  | event event => cases event <;> simp [text, next, lineEnd, PrintItem.line, String.append_assoc]
  | _ => simp [text, next, lineEnd, PrintItem.line, String.append_assoc]

theorem next_closed (level : Nat) (item : PrintItem) :
    (Layout.next ⟨level, false⟩ item).lastIndent = item.indentBehind level := by
  cases item with
  | event event => cases event <;> rfl
  | _ => rfl

end Layout

namespace Printer

open PrintItem

variable {p : Printer} {level : Nat}

theorem newLine_of_closed (closed : p.waiting = false) : p.newLine = p := by
  unfold newLine
  rw [if_neg (Bool.eq_false_iff.mp closed)]

@[simp] theorem newLine_newLine (p : Printer) : p.newLine.newLine = p.newLine :=
  newLine_of_closed p.newLine_waiting

theorem layout_newLine (p : Printer) : p.newLine.layout = ⟨p.layout.lastIndent, false⟩ := by
  rw [newLine_eq, layout_inLayout]

theorem layout_item (p : Printer) {item : PrintItem} (goes : item ≠ .flush) :
    (p.item item).layout = p.layout.next item := by
  rw [item_eq p goes, layout_inLayout]

structure Closed (level : Nat) (p : Printer) : Prop extends p.Unbounded where
  layout : p.layout = ⟨level, false⟩

theorem Closed.newLine (h : p.Closed level) : p.newLine = p :=
  newLine_of_closed (congrArg Layout.waiting h.layout)

theorem Closed.flush (h : p.Closed level) : p.item .flush = p := by
  simp only [Printer.item, Printer.flush, h.newLine]
  exact congrArg (Printer.mk _ _ _) h.failed.symm

theorem Closed.line (h : p.Closed level) {item : PrintItem} (goes : item ≠ .flush) :
    (p.item item).newLine.Closed (item.indentBehind level) ∧
      p.Appends (p.item item).newLine (item.line level ++ "\n") := by
  have unbounded := h.toUnbounded.item item
  have layout : (p.item item).layout = Layout.next ⟨level, false⟩ item := by
    rw [layout_item p goes, h.layout]
  have appends : p.Appends (p.item item)
      (item.line level ++ if (p.item item).waiting then "" else "\n") := by
    have waiting : (p.item item).waiting = (Layout.next ⟨level, false⟩ item).waiting :=
      congrArg Layout.waiting layout
    rw [waiting, ← Layout.text_closed level goes, ← h.layout, item_eq p goes]
    exact (h.put _).2
  refine ⟨⟨unbounded.newLine, ?_⟩, ?_⟩
  · rw [layout_newLine, layout, Layout.next_closed]
  · unfold Printer.newLine
    split
    · next waits =>
      rw [if_pos waits, String.append_empty] at appends
      exact appends.trans (unbounded.put "\n").2
    · next closed =>
      rw [if_neg closed] at appends
      exact appends

theorem Closed.completes (h : p.Closed level) (depth other : Nat) (text again : String)
    (value : Int32) :
    let ended := (p.item (.event (.command depth text))).item (.event (.returned other again value))
    ended.Closed depth ∧ p.Appends ended
      ((PrintItem.event (.command depth text)).line level ++ resultText (some value) ++ "\n") := by
  intro ended
  have begins := h.toUnbounded.begins depth text
  rw [h.newLine] at begins
  have unbounded := h.toUnbounded.item (.event (.command depth text))
  refine ⟨⟨unbounded.item _, ?_⟩, ?_⟩
  · rw [layout_item _ (by simp), layout_item p (by simp)]
    rfl
  · have whole := begins.trans (unbounded.completes rfl other again value)
    simpa [PrintItem.line, resultText, String.append_assoc] using whole

theorem item_newLine (p : Printer) {item : PrintItem} (other : ¬item.Returns) :
    p.newLine.item item = p.item item := by
  cases item with
  | event event =>
    cases event with
    | returned depth text value => exact absurd ⟨depth, text, value, rfl⟩ other
    | _ => simp [Printer.item, Printer.event]
  | _ => simp [Printer.item, Printer.flush]

def finish (p : Printer) (items : List PrintItem) : Printer :=
  (items ++ [PrintItem.flush]).foldl item p

theorem finish_newLine (p : Printer) {items : List PrintItem}
    (other : ∀ item ∈ items.head?, ¬item.Returns) : p.newLine.finish items = p.finish items := by
  cases items with
  | nil =>
    have flush : ¬PrintItem.flush.Returns := by
      rintro ⟨_, _, _, same⟩
      cases same
    exact p.item_newLine flush
  | cons item rest =>
    exact congrArg (fun q => finish q rest) (p.item_newLine (other item rfl))

theorem Closed.finish (h : p.Closed level) (items : List PrintItem) :
    p.Appends (p.finish items)
      (String.join ((linesFrom level (records items)).map (· ++ "\n"))) := by
  induction items using records.induct generalizing p level with
  | case1 =>
    have same : p.finish [] = p := h.flush
    rw [same]
    exact (ByteArray.append_empty ..).symm
  | case2 depth text other again value rest ih =>
    obtain ⟨closed, line⟩ := h.completes depth other text again value
    rw [records, linesFrom, List.map_cons, String.join_cons]
    exact line.trans (ih closed)
  | case3 rest ih =>
    have same : p.finish (.flush :: rest) = p.finish rest :=
      congrArg (fun q => Printer.finish q rest) h.flush
    rw [same]
    exact ih h
  | case4 item rest apart goes ih =>
    obtain ⟨closed, line⟩ := h.line goes
    have ended : (p.item item).newLine.finish rest = p.finish (item :: rest) := by
      cases waits : (p.item item).waiting with
      | false => exact congrArg (fun q => Printer.finish q rest) (newLine_of_closed waits)
      | true =>
        obtain ⟨depth, text, same⟩ := (p.waiting_item item).mp waits
        refine (p.item item).finish_newLine fun next first returns => ?_
        obtain ⟨other, again, value, rfl⟩ := returns
        obtain ⟨later, begins⟩ := List.head?_eq_some_iff.mp first
        exact apart depth text other again value later same begins
    rw [records.eq_4 _ _ apart goes, linesFrom, List.map_cons, String.join_cons, resultText,
      String.append_empty, ← ended]
    exact line.trans (ih closed)

end Printer

/-! Lines as they are read. -/

namespace PrintItem

theorem newline_notMem_toDigits (n : Nat) : '\n' ∉ Nat.toDigits 10 n := fun member =>
  absurd (Nat.isDigit_of_mem_toDigits (by decide) (by decide) member) (by decide)

theorem newline_notMem_repr (i : Int) : '\n' ∉ i.repr.toList := by
  cases i with
  | ofNat n =>
    change '\n' ∉ n.repr.toList
    simp [newline_notMem_toDigits]
  | negSucc n =>
    change '\n' ∉ ("-" ++ n.succ.repr).toList
    simp [String.toList_append, newline_notMem_toDigits]

theorem newline_notMem_margin (level : Nat) : '\n' ∉ (Printer.margin level).toList := by
  simp [Printer.margin]

theorem newline_notMem_render (id : FunctionId) : '\n' ∉ id.render.toList := by
  rw [id.toList_render]
  simp only [List.mem_append, List.mem_cons, not_or]
  refine ⟨fun member => ?_, by decide, fun member => ?_⟩
  · cases id.isNamespaceChar_of_mem member
  · cases id.isPathChar_of_mem member

theorem newline_notMem_line {item : PrintItem} (one : item.OneLine) (lastIndent : Nat) :
    '\n' ∉ (item.line lastIndent).toList := by
  cases item with
  | event event =>
    cases event <;> simp_all [line, OneLine, String.toList_append, newline_notMem_margin,
      newline_notMem_repr, newline_notMem_render, newline_notMem_toDigits]
  | _ => simp_all [line, OneLine, String.toList_append, newline_notMem_margin]

theorem newline_notMem_resultText (result : Option Int32) :
    '\n' ∉ (resultText result).toList := by
  cases result <;> simp [resultText, String.toList_append, newline_notMem_repr]

theorem mem_of_mem_records {items : List PrintItem} {record : PrintItem × Option Int32}
    (member : record ∈ records items) : record.1 ∈ items := by
  induction items using records.induct with
  | case1 => cases member
  | case2 depth text other again value rest ih =>
    rcases List.mem_cons.mp member with rfl | later
    · exact List.mem_cons_self
    · exact List.mem_cons_of_mem _ (List.mem_cons_of_mem _ (ih later))
  | case3 rest ih => exact List.mem_cons_of_mem _ (ih member)
  | case4 item rest apart goes ih =>
    rw [records.eq_4 _ _ apart goes] at member
    rcases List.mem_cons.mp member with rfl | later
    · exact List.mem_cons_self
    · exact List.mem_cons_of_mem _ (ih later)

theorem newline_notMem_linesFrom {written : List (PrintItem × Option Int32)}
    (one : ∀ record ∈ written, record.1.OneLine) (lastIndent : Nat) :
    ∀ line ∈ linesFrom lastIndent written, '\n' ∉ line.toList := by
  induction written generalizing lastIndent with
  | nil => exact fun _ member => absurd member List.not_mem_nil
  | cons record rest ih =>
    obtain ⟨item, result⟩ := record
    obtain ⟨first, others⟩ := List.forall_mem_cons.mp one
    refine List.forall_mem_cons.mpr ⟨?_, ih others _⟩
    rw [String.toList_append, List.mem_append, not_or]
    exact ⟨newline_notMem_line first lastIndent, newline_notMem_resultText result⟩

end PrintItem

/-- Lines that hold no newline are read again as they were written. -/
theorem splitOn_join_lines {lines : List String} (one : ∀ line ∈ lines, '\n' ∉ line.toList) :
    (String.join (lines.map (· ++ "\n"))).toList.splitOn '\n' =
      lines.map String.toList ++ [[]] := by
  induction lines with
  | nil => rfl
  | cons line rest ih =>
    obtain ⟨first, others⟩ := List.forall_mem_cons.mp one
    have parts : (String.join ((line :: rest).map (· ++ "\n"))).toList =
        line.toList ++ '\n' :: (String.join (rest.map (· ++ "\n"))).toList := by
      simp [String.join_cons, String.toList_append]
    rw [parts, List.splitOn_append_cons_self_of_not_mem first, ih others]
    rfl

namespace Printer

open PrintItem

/-- A trace that is flushed at the end consists of the lines of its items, each with its end. If no
text of an item holds a newline, those are the lines that the trace is read as. -/
theorem prints_lines (items : List PrintItem) :
    (printed (items ++ [.flush])).sink.written =
        (String.join ((traceLines items).map (· ++ "\n"))).toUTF8 ∧
      (printed items).flush.1 = true ∧
      ((∀ item ∈ items, item.OneLine) →
        (String.join ((traceLines items).map (· ++ "\n"))).toList.splitOn '\n' =
          (traceLines items).map String.toList ++ [[]]) := by
  have closed : Closed 0 {} := ⟨Unbounded.printed [], rfl⟩
  refine ⟨?_, ?_, fun one => splitOn_join_lines ?_⟩
  · have written := closed.finish items
    exact Eq.trans written ByteArray.empty_append
  · simp [flush, (Unbounded.printed items).newLine.failed]
  · exact newline_notMem_linesFrom (fun record member => one _ (mem_of_mem_records member)) 0

/-- A command with its result, one that is flushed before its result, and an error. -/
def sampleItems : List PrintItem :=
  [.heading "demo:main", .event (.command 1 "say a"), .event (.returned 1 "say a" 1),
    .event (.command 1 "fail"), .event (.error "nope"), .event (.returned 1 "fail" 0),
    .event (.command 1 "value 7"), .flush, .event (.returned 1 "value 7" 7),
    .event (.command 1 "function")]

theorem prints_lines_sample : (∀ item ∈ sampleItems, item.OneLine) ∧
    (printed (sampleItems ++ [.flush])).sink.written = ("demo:main\n" ++
      "        [C] say a -> 1\n" ++
      "        [C] fail\n" ++
      "            [E] nope\n" ++
      "        [R = 0] fail\n" ++
      "        [C] value 7\n" ++
      "        [R = 7] value 7\n" ++
      "        [C] function\n").toUTF8 ∧
    (String.join ((traceLines sampleItems).map (· ++ "\n"))).toList.splitOn '\n' =
      (traceLines sampleItems).map String.toList ++ [[]] := by
  obtain ⟨written, _, lines⟩ := prints_lines sampleItems
  have one : ∀ item ∈ sampleItems, item.OneLine := by simp [sampleItems, OneLine]
  exact ⟨one, written.trans (by decide +kernel), lines one⟩

end Printer

end PackEngine
