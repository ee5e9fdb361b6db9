import PackEngine.Proofs.OpenLines
import PackEngine.Proofs.Printers

/-! Whose results stand on the lines of a trace. A result is put on the line of the command that was
told of last. It is that command's own, unless the command has ended without any result where a line
further out waits for its conditions: then that line goes on, and what it returns is put there. -/
namespace PackEngine

open Machine

variable {pack : Pack} {start : Machine packWords}

namespace Machine

/-- In turn `n` it is the turn of a leaf of the line whose turn was turn `j`, above all that waited
below that line then. -/
def LeafOf (pack : Pack) (start : Machine packWords) (j n : Nat) : Prop :=
  ∃ frame issuer sources chain flags topLevel lower leaf source upper,
    (start.after (packRules pack) j).stack.entries =
      ⟨frame, .line issuer sources chain flags topLevel⟩ :: lower ∧
    (start.after (packRules pack) n).stack.entries =
      ⟨frame, .execute leaf source⟩ :: (upper ++ lower) ∧
    (Task.execute leaf source).WorksOn chain

def Resumes (pack : Pack) (start : Machine packWords) (k j : Nat) : Prop :=
  ∃ frame issuer cell chain flags top between lower,
    (start.after (packRules pack) j).stack.entries =
      ⟨frame, .continuation issuer cell chain flags⟩ :: lower ∧
    (start.after (packRules pack) k).stack.entries =
      top :: (between ++ ⟨frame, .continuation issuer cell chain flags⟩ :: lower)

/-- Turn `j` is that of a line in the frame, with `below` below it: of the line that begins in turn
`k` above `lower`, or of one that has waited there. -/
inductive TakesUp (pack : Pack) (start : Machine packWords) (k : Nat)
    (lower : List (Entry packWords)) (j : Nat) (frame : Frame packWords) (chain : Chain packWords) :
    List (Entry packWords) → Prop where
  | begins {issuer : PackSource} {sources : Sources packWords} {flags : Flags} (same : j = k)
      (entries : (start.after (packRules pack) j).stack.entries =
        ⟨frame, .line issuer sources chain flags true⟩ :: lower) :
      TakesUp pack start k lower j frame chain lower
  | resumes {issuer : PackSource} {cell : CellId} {flags : Flags} {below : List (Entry packWords)}
      (later : k < j) (entries : (start.after (packRules pack) j).stack.entries =
        ⟨frame, .continuation issuer cell chain flags⟩ :: below)
      (waited : ⟨frame, .continuation issuer cell chain flags⟩ :: below <:+ lower) :
      TakesUp pack start k lower j frame chain below

/-- What waits in turn `n`, while nothing has been told since turn `k`. -/
inductive Between (pack : Pack) (start : Machine packWords) (k : Nat)
    (lower : List (Entry packWords)) (n : Nat) : Prop where
  | idle {upper below : List (Entry packWords)} (waited : below <:+ lower)
      (entries : (start.after (packRules pack) n).stack.entries = upper ++ below)
      (unlined : ∀ entry ∈ upper, entry.task.Unlined)
  | engaged {j : Nat} {frame : Frame packWords} {chain : Chain packWords}
      {upper below : List (Entry packWords)}
      (takes : start.TakesUp pack k lower j frame chain below) (earlier : j < n)
      (entries : (start.after (packRules pack) n).stack.entries = upper ++ below)
      (only : ∀ entry ∈ upper, entry.task.Unlined ∨ entry.On frame chain)

variable {k j n : Nat} {lower below : List (Entry packWords)} {frame : Frame packWords}
  {chain : Chain packWords}

theorem TakesUp.waited (h : start.TakesUp pack k lower j frame chain below) : below <:+ lower := by
  cases h with
  | begins same entries => exact List.suffix_refl _
  | resumes later entries waited => exact (List.suffix_cons _ _).trans waited

theorem TakesUp.line (h : start.TakesUp pack k lower j frame chain below) :
    ∃ issuer sources flags topLevel, (start.after (packRules pack) j).stack.entries =
      ⟨frame, .line issuer sources chain flags topLevel⟩ :: below := by
  cases h with
  | begins same entries => exact ⟨_, _, _, _, entries⟩
  | resumes later entries waited => exact ⟨_, _, _, _, entries⟩

theorem Between.of_suffix (h : (start.after (packRules pack) n).stack.entries <:+ lower) :
    start.Between pack k lower n :=
  .idle h (List.nil_append _).symm fun _ member => absurd member List.not_mem_nil

theorem TakesUp.step (h : start.TakesUp pack k lower j frame chain below)
    (reached : (start.after (packRules pack) j).Reached (packRules pack) PackTask)
    (fine : (start.after (packRules pack) (j + 1)).overflowed = false) :
    start.Between pack k lower (j + 1) := by
  obtain ⟨issuer, sources, flags, topLevel, entries⟩ := h.line
  have next := after_succ (packRules pack) j start
  rw [next] at fine
  have works := Task.worksOn_self issuer sources chain flags topLevel
  have queued (entry : Entry packWords)
      (queued : .queue entry ∈ (start.after (packRules pack) j).turnOperations (packRules pack)) :
      entry.task.Unlined ∨ entry.On frame chain := by
    rw [turnOperations_of_entries _ entries] at queued
    exact ((PackTask.line issuer sources chain flags topLevel).hands_on rfl _ queued).imp_right
      fun lined => ⟨lined.2.1, lined.2.2 chain works⟩
  obtain ⟨upper, grown, only⟩ | less := reached.step_above
    (entries.trans (congrArg _ (List.nil_append below).symm))
    (fun _ member => absurd member List.not_mem_nil) queued fine
  · exact .engaged h (Nat.lt_succ_self j) (next ▸ grown) only
  · exact .of_suffix (next ▸ less.trans h.waited)

/-- A turn that calls nothing, and that neither begins a line nor is a leaf's. -/
theorem Between.step (h : start.Between pack k lower n) (later : k < n)
    (reached : (start.after (packRules pack) n).Reached (packRules pack) PackTask)
    (tidy : (start.after (packRules pack) n).Tidy)
    (leafless : ∀ entry ∈ lower, ¬entry.task.IsLeaf) {top : Entry packWords}
    {rest : List (Entry packWords)}
    (entries : (start.after (packRules pack) n).stack.entries = top :: rest)
    (command : top.task.isCommand = false) (underway : top.task.Underway)
    (fine : (start.after (packRules pack) (n + 1)).overflowed = false) :
    start.Between pack k lower (n + 1) := by
  have next := after_succ (packRules pack) n start
  rw [next] at fine
  have task := reached.packTasks top (entries ▸ List.mem_cons_self)
  have handed {entry : Entry packWords}
      (queued : .queue entry ∈ (start.after (packRules pack) n).turnOperations (packRules pack)) :=
    task.hands_on command _ (turnOperations_of_entries (packRules pack) entries ▸ queued)
  -- the work above stays what it is
  have above {P : Entry packWords → Prop} {upper below : List (Entry packWords)}
      (split : rest = upper ++ below) (others : ∀ entry ∈ upper, P entry)
      (queued : ∀ entry, .queue entry ∈
        (start.after (packRules pack) n).turnOperations (packRules pack) → P entry) :=
    reached.step_above (split ▸ entries) others queued fine
  have idle {below : List (Entry packWords)} (waited : below <:+ lower)
      (less : ((start.after (packRules pack) n).step (packRules pack)).stack.entries <:+ below) :
      start.Between pack k lower (n + 1) := .of_suffix (next ▸ less.trans waited)
  -- with nothing above it, work goes on that has waited below
  have below {waiting : List (Entry packWords)} (waited : waiting <:+ lower)
      (same : (start.after (packRules pack) n).stack.entries = waiting) :
      start.Between pack k lower (n + 1) := by
    cases entries.symm.trans same
    obtain leaf | unlined | ⟨issuer, sources, chain, flags, topLevel, line⟩ :=
      top.task.isLeaf_or_unlined_or_line
    · exact absurd leaf (leafless top (waited.mem List.mem_cons_self))
    · obtain ⟨upper, grown, only⟩ | less := above (P := fun entry => entry.task.Unlined)
        (List.nil_append rest).symm (fun _ member => absurd member List.not_mem_nil)
        fun entry queued => (handed queued).resolve_right fun lined => lined.1 unlined
      · exact .idle ((List.suffix_cons _ _).trans waited) (next ▸ grown) only
      · exact idle ((List.suffix_cons _ _).trans waited) less
    · obtain ⟨frame, task⟩ := top
      cases line
      cases underway
      cases sources with
      | ready present => cases tidy.lines _ (entries ▸ List.mem_cons_self)
      | collected cell =>
        exact TakesUp.step (.resumes later entries waited) reached (next ▸ fine)
  cases h with
  | @idle upper waiting waited same unlined =>
    cases upper with
    | nil => exact below waited same
    | cons first upper =>
      cases entries.symm.trans same
      have own := unlined _ List.mem_cons_self
      obtain ⟨others, grown, only⟩ | less := above rfl
        (fun entry member => unlined entry (List.mem_cons_of_mem _ member))
        fun entry queued => (handed queued).resolve_right fun lined => lined.1 own
      · exact .idle waited (next ▸ grown) only
      · exact idle waited less
  | @engaged j frame chain upper waiting takes earlier same only =>
    cases upper with
    | nil => exact below takes.waited same
    | cons first upper =>
      cases entries.symm.trans same
      obtain ⟨others, grown, still⟩ | less := above rfl
        (fun entry member => only entry (List.mem_cons_of_mem _ member))
        fun entry queued => (handed queued).imp_right fun ⟨lined, place, works⟩ =>
          have own := (only _ List.mem_cons_self).resolve_left lined
          ⟨place.trans own.1, works chain own.2⟩
      · exact .engaged takes (Nat.lt_succ_of_lt earlier) (next ▸ grown) still
      · exact idle takes.waited less

theorem Between.leafOf (h : start.Between pack k lower n)
    (leafless : ∀ entry ∈ lower, ¬entry.task.IsLeaf)
    {leaf : LeafLine packWords} {source : PackSource} {rest : List (Entry packWords)}
    (entries : (start.after (packRules pack) n).stack.entries =
      ⟨frame, .execute leaf source⟩ :: rest) {top : Entry packWords}
    (begun : (start.after (packRules pack) k).stack.entries = top :: lower) :
    start.LeafOf pack k n ∨
      ∃ j, k < j ∧ j < n ∧ start.Resumes pack k j ∧ start.LeafOf pack j n := by
  have below {waiting : List (Entry packWords)} (waited : waiting <:+ lower)
      (same : (start.after (packRules pack) n).stack.entries = waiting) : False := by
    cases entries.symm.trans same
    exact leafless _ (waited.mem List.mem_cons_self) trivial
  cases h with
  | @idle upper waiting waited same unlined =>
    cases upper with
    | nil => exact (below waited same).elim
    | cons first upper =>
      cases entries.symm.trans same
      exact absurd trivial (unlined _ List.mem_cons_self).not_isLeaf
  | @engaged j place chain upper waiting takes earlier same only =>
    cases upper with
    | nil => exact (below takes.waited same).elim
    | cons first upper =>
      cases entries.symm.trans same
      obtain ⟨rfl, works⟩ := (only _ List.mem_cons_self).resolve_left fun unlined =>
        unlined.not_isLeaf trivial
      obtain ⟨issuer, sources, flags, topLevel, line⟩ := takes.line
      have leafOf : start.LeafOf pack j n :=
        ⟨frame, issuer, sources, chain, flags, topLevel, waiting, leaf, source, upper, line,
          entries, works⟩
      cases takes with
      | begins own =>
        cases own
        exact .inl leafOf
      | resumes after resumed waited =>
        obtain ⟨between, split⟩ := waited
        refine .inr ⟨j, after, earlier, ⟨_, _, _, _, _, top, between, _, resumed, ?_⟩, leafOf⟩
        rw [begun, ← split]

end Machine

end PackEngine
