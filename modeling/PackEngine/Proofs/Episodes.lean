import PackEngine.Proofs.Scopes

/-! Episodes. From a call's turn on, all turns are spent in its scope, above the work below the
call, until the call has answered or nothing of it is left. -/
namespace PackEngine

open Machine

namespace Scope

variable {s : Scope}

inductive Hears (s : Scope) : List Outcome → List (Hearing packWords) → Prop where
  | nothing {log : List (Hearing packWords)}
      (own : ∀ heard ∈ log, heard.1.Since s.mark s.given) : Hears s [] log
  | last {log : List (Hearing packWords)} (own : ∀ heard ∈ log, heard.1.Since s.mark s.given)
      (outcome : Outcome) : Hears s [outcome] (log ++ s.base.hearing outcome)
  | next {log later : List (Hearing packWords)} {outcomes : List Outcome}
      (own : ∀ heard ∈ log, heard.1.Since s.mark s.given) (outcome : Outcome)
      (nonempty : outcomes ≠ []) (rest : Hears s outcomes later) :
      Hears s (outcome :: outcomes) (log ++ s.base.hearing outcome ++ later)

theorem Hears.after_own {outcomes : List Outcome} {log later : List (Hearing packWords)}
    (own : ∀ heard ∈ log, heard.1.Since s.mark s.given) (h : s.Hears outcomes later) :
    s.Hears outcomes (log ++ later) := by
  have both {more : List (Hearing packWords)}
      (ownMore : ∀ heard ∈ more, heard.1.Since s.mark s.given) :
      ∀ heard ∈ log ++ more, heard.1.Since s.mark s.given := by
    intro heard member
    cases List.mem_append.mp member with
    | inl member => exact own heard member
    | inr member => exact ownMore heard member
  cases h with
  | nothing ownMore => exact .nothing (both ownMore)
  | last ownMore outcome =>
    rw [← List.append_assoc]
    exact .last (both ownMore) outcome
  | next ownMore outcome nonempty rest =>
    rw [← List.append_assoc, ← List.append_assoc]
    exact .next (both ownMore) outcome nonempty rest

def leaves (s : Scope) (outcomes : List Outcome) (lower : List (Entry packWords)) :
    List (Entry packWords) :=
  if outcomes.isEmpty then lower
  else lower.dropWhile fun entry => s.boundary.covers entry.frame

/-! What a single turn does. -/

theorem Works.spares {operation : Operation packWords} (h : s.Works operation) :
    operation.Spares s.mark := by
  cases operation with
  | record frame outcome => exact h
  | collect cell source => exact h.elim
  | emptyCell cell => exact h
  | _ => trivial

def Silent (s : Scope) (operation : Operation packWords) : Prop :=
  ∀ m, ∀ heard ∈ operation.heard m, heard.1.Since s.mark s.given

theorem Own.hearing {callback : Callback packWords} (own : s.Own callback) (outcome : Outcome) :
    ∀ heard ∈ callback.hearing outcome, heard.1.Since s.mark s.given := by
  intro heard member
  obtain ⟨receiver, among, rfl⟩ := List.mem_map.mp member
  exact own receiver among

theorem Works.silent {operation : Operation packWords} (h : s.Works operation) :
    s.Silent operation := by
  intro m heard member
  cases operation with
  | returnFrom frame outcome => exact h.elim
  | deliver callback outcome => exact Own.hearing h outcome heard member
  | deliverTally tally callback =>
    simp only [Operation.heard] at member
    split at member
    · exact Own.hearing h _ heard member
    · cases member
  | _ => cases member

theorem Silent.allHeard {rules : Rules packWords} {operations : List (Operation packWords)}
    (silent : ∀ operation ∈ operations, s.Silent operation) {m : Machine packWords} :
    ∀ heard ∈ Operation.allHeard rules operations m, heard.1.Since s.mark s.given := by
  induction operations generalizing m with
  | nil => exact fun _ member => absurd member List.not_mem_nil
  | cons operation rest ih =>
    intro heard member
    cases List.mem_append.mp member with
    | inl member => exact silent operation List.mem_cons_self m heard member
    | inr member =>
      exact ih (fun other among => silent other (List.mem_cons_of_mem _ among)) heard member

theorem Keeps.applyAll {rules : Rules packWords} {operations : List (Operation packWords)}
    (silent : ∀ operation ∈ operations, s.Silent operation)
    (direct : ∀ operation ∈ operations, ∀ cell source, operation ≠ .collect cell source)
    {m : Machine packWords} (keeps : s.Keeps m.heap) :
    s.Keeps (Operation.applyAll rules operations m).heap := by
  intro cell young source member
  obtain before | ⟨polarity, outcome, heard⟩ :=
    Operation.mem_collected_applyAll direct member
  · exact keeps cell young source before
  · exact (Silent.allHeard silent _ heard).2

variable {pack : Pack} {lower : List (Entry packWords)}

def Ends (s : Scope) (frame : Frame packWords) (operation : Operation packWords) : Prop :=
  s.Quiet operation ∨ ∃ outcome, operation = .returnFrom frame outcome

theorem Ends.of_pieces {frame : Frame packWords}
    {pieces : List (List (Operation packWords) × Outcome)}
    (quiet : ∀ piece ∈ pieces, ∀ operation ∈ piece.1, s.Quiet operation) :
    ∀ operation ∈ pieces.flatMap fun piece => piece.1 ++ [Operation.returnFrom frame piece.2],
      s.Ends frame operation := by
  intro operation member
  obtain ⟨piece, among, member⟩ := List.mem_flatMap.mp member
  cases List.mem_append.mp member with
  | inl member => exact .inl (quiet piece among operation member)
  | inr member => exact .inr ⟨_, List.mem_singleton.mp member⟩

theorem Ends.spares {frame : Frame packWords} {operation : Operation packWords}
    (h : s.Ends frame operation) : operation.Spares s.mark := by
  obtain work | ⟨outcome, rfl⟩ := h
  · exact work.2.spares
  · trivial

theorem Hears.of_pieces {rules : Rules packWords} {frame : Frame packWords}
    {front : Callback packWords} (own : s.Own front) (ends : frame.sink = front ++ s.base)
    {pieces : List (List (Operation packWords) × Outcome)} (nonempty : pieces ≠ [])
    (quiet : ∀ piece ∈ pieces, ∀ operation ∈ piece.1, s.Quiet operation)
    (m : Machine packWords) :
    s.Hears (pieces.map (·.2)) (Operation.allHeard rules
      (pieces.flatMap fun piece => piece.1 ++ [.returnFrom frame piece.2]) m) := by
  induction pieces generalizing m with
  | nil => exact absurd rfl nonempty
  | cons piece rest ih =>
    obtain ⟨first, outcome⟩ := piece
    have silent : ∀ heard ∈ Operation.allHeard rules first m ++ front.hearing outcome,
        heard.1.Since s.mark s.given := by
      intro heard member
      cases List.mem_append.mp member with
      | inl member =>
        exact Silent.allHeard (fun operation among =>
          (quiet _ List.mem_cons_self operation among).2.silent) heard member
      | inr member => exact own.hearing outcome heard member
    have returned (m : Machine packWords) :
        Operation.allHeard rules [.returnFrom frame outcome] m =
          front.hearing outcome ++ s.base.hearing outcome := by
      simp [Operation.allHeard, Operation.heard, ends]
    rw [List.flatMap_cons, Operation.allHeard_append, Operation.allHeard_append, returned,
      ← List.append_assoc]
    cases rest with
    | nil =>
      simp only [List.flatMap_nil, Operation.allHeard, List.append_nil, List.map_cons, List.map_nil]
      exact .last silent outcome
    | cons other others =>
      exact .next silent outcome (List.cons_ne_nil _ _)
        (ih (List.cons_ne_nil _ _) (fun piece member => quiet piece (List.mem_cons_of_mem _ member))
          _)

theorem covers_opened (valid : s.outer.boundary.depth ≤ s.outer.depth)
    {frame : Frame packWords} (opened : s.Opened frame) : s.boundary.covers frame = true := by
  have deeper := opened.deeper
  simp only [Boundary.covers, Bool.and_eq_true, beq_iff_eq, decide_eq_true_eq]
  unfold boundary
  cases s.returning with
  | true => exact ⟨opened.seed, show s.outer.boundary.depth ≤ frame.depth by omega⟩
  | false => exact ⟨opened.seed, deeper⟩

theorem covers_lower {boundary : Boundary} (seed : boundary.seed = s.outer.boundary.seed)
    (deeper : s.outer.depth < boundary.depth) {entry : Entry packWords}
    (below : s.outer.Precedes entry.frame) : boundary.covers entry.frame = false := by
  rw [← Bool.not_eq_true]
  intro covered
  simp only [Boundary.covers, Bool.and_eq_true, beq_iff_eq, decide_eq_true_eq] at covered
  have depth := (below.2 (seed ▸ covered.1.symm)).1
  omega

/-- A call that is no return call leaves the work below it as it was. -/
theorem leaves_of_call (calls : s.returning = false)
    (below : ∀ entry ∈ lower, s.outer.Precedes entry.frame) (outcomes : List Outcome) :
    s.leaves outcomes lower = lower := by
  have boundary : s.boundary = s.outer.below := by
    unfold Scope.boundary
    rw [calls]
    rfl
  unfold leaves
  split
  · rfl
  · rw [boundary]
    cases lower with
    | nil => rfl
    | cons entry rest =>
      have seed : s.outer.below.seed = s.outer.boundary.seed := rfl
      have kept := covers_lower seed (Nat.lt_succ_self _) (below entry List.mem_cons_self)
      exact List.dropWhile_cons_of_neg (by simp [kept])

end Scope

namespace Machine

variable {pack : Pack} {s : Scope} {lower upper : List (Entry packWords)}
  {m : Machine packWords} {top : Entry packWords}

structure Within (s : Scope) (lower upper : List (Entry packWords)) (m : Machine packWords) :
    Prop where
  entries : m.stack.entries = upper ++ lower
  holds : ∀ entry ∈ upper, s.Holds entry
  keeps : s.Keeps m.heap
  wide : s.mark.Expands m.heap

/-- From here on all turns belong to the scope, until it has been left as it leaves the work below
for the outcomes. Older slots and cells change by what they hear only. -/
structure Episode (pack : Pack) (s : Scope) (lower : List (Entry packWords))
    (m : Machine packWords) (n : Nat) (outcomes : List Outcome) : Prop where
  runs : m.Runs (packRules pack) n
  above : ∀ k < n, 0 < k → ∃ top upper,
    (m.after (packRules pack) k).stack.entries = top :: (upper ++ lower) ∧ s.Opened top.frame
  silent : ∀ k < n, ∀ heard ∈ m.log (packRules pack) k, heard.1.Since s.mark s.given
  hears : s.Hears outcomes (m.log (packRules pack) n)
  left : (m.after (packRules pack) n).stack.entries = s.leaves outcomes lower
  follows : s.mark.Follows (m.log (packRules pack) n) m.heap (m.after (packRules pack) n).heap

theorem Episode.nothing (entries : m.stack.entries = lower) : m.Episode pack s lower 0 [] where
  runs := runs_zero _ m
  above k less := absurd less (Nat.not_lt_zero k)
  silent k less := absurd less (Nat.not_lt_zero k)
  hears := .nothing fun _ member => absurd member List.not_mem_nil
  left := entries
  follows := .refl _ _

theorem Episode.spends {n : Nat} {outcomes : List Outcome}
    (episode : m.Episode pack s lower n outcomes) (entries : m.stack.entries = top :: lower) :
    m.Spends pack lower (s.leaves outcomes lower) n := by
  refine ⟨episode.runs, fun k less => ?_, episode.left⟩
  cases k with
  | zero => exact ⟨top, [], entries⟩
  | succ k =>
    obtain ⟨first, upper, found, _⟩ := episode.above (k + 1) less (Nat.succ_pos k)
    exact ⟨first, upper, found⟩

theorem Episode.of_step {n : Nat} {outcomes : List Outcome} (goes : m.verdict? = none)
    (own : ∀ heard ∈ m.turnHeard (packRules pack), heard.1.Since s.mark s.given)
    (spare : ∀ operation ∈ m.turnOperations (packRules pack), operation.Spares s.mark)
    (wide : s.mark.Expands m.heap)
    (starts : 0 < n → ∃ top upper,
      (m.step (packRules pack)).stack.entries = top :: (upper ++ lower) ∧ s.Opened top.frame)
    (later : (m.step (packRules pack)).Episode pack s lower n outcomes) :
    m.Episode pack s lower (n + 1) outcomes where
  runs := (runs_succ_iff _ n m).mpr ⟨goes, later.runs⟩
  above k less positive := by
    obtain ⟨k, rfl⟩ := Nat.exists_eq_succ_of_ne_zero (Nat.ne_of_gt positive)
    cases k with
    | zero => exact starts (Nat.lt_of_succ_lt_succ less)
    | succ k => exact later.above (k + 1) (Nat.lt_of_succ_lt_succ less) (Nat.succ_pos k)
  silent k less heard member := by
    cases k with
    | zero => exact absurd member List.not_mem_nil
    | succ k =>
      cases List.mem_append.mp member with
      | inl member => exact own heard member
      | inr member => exact later.silent k (Nat.lt_of_succ_lt_succ less) heard member
  hears := later.hears.after_own own
  left := later.left
  follows := (step_follows _ spare wide).trans later.follows

theorem Within.of_works (free : m.FreeAbove pack lower)
    (entries : m.stack.entries = top :: (upper ++ lower))
    (holds : ∀ entry ∈ upper, s.Holds entry) (keeps : s.Keeps m.heap)
    (wide : s.mark.Expands m.heap)
    (work : ∀ operation ∈ m.turnOperations (packRules pack), s.Works operation) :
    (m.step (packRules pack)).Within s lower
        (Operation.queuedIn (m.turnOperations (packRules pack)) ++ upper) ∧
      ∀ heard ∈ m.turnHeard (packRules pack), heard.1.Since s.mark s.given := by
  have never := returnsIn_eq_nil fun frame outcome member => work (.returnFrom frame outcome) member
  have silent := fun operation member => (work operation member).silent
  refine ⟨⟨?_, fun entry member => ?_, ?_, wide.trans (step_expands _ m)⟩, ?_⟩
  · rw [free.step_queued entries never, List.append_assoc]
  · cases List.mem_append.mp member with
    | inr member => exact holds entry member
    | inl member =>
      obtain ⟨operation, among, queues⟩ := List.mem_filterMap.mp member
      cases operation with
      | queue other =>
        cases queues
        exact work _ among
      | _ => cases queues
  · rw [step_eq_applyAll _ entries]
    refine Scope.Keeps.applyAll (m := m.taking top (upper ++ lower)) silent ?_ keeps
    rintro operation member cell source rfl
    exact work _ member
  · rw [turnHeard_of_entries _ entries]
    exact Scope.Silent.allHeard silent

theorem dropWhile_uncovered {boundary : Boundary}
    (stops : ∀ entry ∈ lower, boundary.covers entry.frame = false) :
    lower.dropWhile (fun entry => boundary.covers entry.frame) = lower := by
  cases lower with
  | nil => rfl
  | cons entry rest => exact List.dropWhile_cons_of_neg (by simp [stops entry List.mem_cons_self])

/-- A turn that returns drops the waiting entries that its frame's boundary covers. -/
theorem Reached.drops (reached : m.Reached (packRules pack) PackTask)
    (entries : m.stack.entries = top :: lower)
    (ends : ∀ operation ∈ m.turnOperations (packRules pack), s.Ends top.frame operation)
    (returns : returnsIn (m.turnOperations (packRules pack)) ≠ []) :
    (m.step (packRules pack)).stack.entries =
      lower.dropWhile fun entry => top.frame.boundary.covers entry.frame := by
  refine reached.step_dropped entries returns ?_ (Operation.queuedIn_eq_nil fun entry member => ?_)
  · rintro ⟨frame, outcome⟩ member
    obtain work | ⟨_, form⟩ := ends _ (mem_returnsIn.mp member)
    · exact work.2.elim
    · cases form
      rfl
  · obtain work | ⟨_, form⟩ := ends _ member
    · exact work.1
    · cases form

theorem Within.of_own (reached : m.Reached (packRules pack) PackTask)
    (below : ∀ entry ∈ lower, s.outer.Precedes entry.frame)
    (within : m.Within s lower (top :: upper))
    (ends : ∀ operation ∈ m.turnOperations (packRules pack), s.Ends top.frame operation)
    (returns : returnsIn (m.turnOperations (packRules pack)) ≠ [])
    (deeper : s.outer.depth < top.frame.boundary.depth) (sink : s.Own top.frame.sink) :
    (m.step (packRules pack)).Within s lower
        (upper.dropWhile fun entry => top.frame.boundary.covers entry.frame) ∧
      ∀ heard ∈ m.turnHeard (packRules pack), heard.1.Since s.mark s.given := by
  have entries : m.stack.entries = top :: (upper ++ lower) := within.entries
  have own := within.holds top List.mem_cons_self
  have silent : ∀ operation ∈ m.turnOperations (packRules pack), s.Silent operation := by
    intro operation member
    obtain work | ⟨outcome, rfl⟩ := ends operation member
    · exact work.2.silent
    · exact fun m => sink.hearing outcome
  have stops : ∀ entry ∈ lower, top.frame.boundary.covers entry.frame = false :=
    fun entry member => Scope.covers_lower own.opened.seed deeper (below entry member)
  refine ⟨⟨?_, fun entry member => ?_, ?_, within.wide.trans (step_expands _ m)⟩, ?_⟩
  · rw [reached.drops entries ends returns, List.dropWhile_append]
    split
    · next gone =>
      rw [List.isEmpty_iff.mp gone]
      exact dropWhile_uncovered stops
    · rfl
  · exact within.holds entry
      (List.mem_cons_of_mem top ((List.dropWhile_sublist _).mem member))
  · rw [step_eq_applyAll _ entries]
    refine Scope.Keeps.applyAll (m := m.taking top (upper ++ lower)) silent ?_ within.keeps
    rintro operation member cell source rfl
    obtain work | ⟨_, form⟩ := ends _ member
    · exact work.2
    · cases form
  · rw [turnHeard_of_entries _ entries]
    exact Scope.Silent.allHeard silent

/-- One turn in the scope: it stays open, and only its own hear; or the call answers, and nothing
is left of it. -/
theorem Within.step (free : m.FreeAbove pack lower)
    (valid : s.outer.boundary.depth ≤ s.outer.depth)
    (below : ∀ entry ∈ lower, s.outer.Precedes entry.frame)
    (within : m.Within s lower (top :: upper)) :
    (∀ operation ∈ m.turnOperations (packRules pack), operation.Spares s.mark) ∧
    ((∃ left, (m.step (packRules pack)).Within s lower left ∧
        ∀ heard ∈ m.turnHeard (packRules pack), heard.1.Since s.mark s.given) ∨
      ∃ outcomes, outcomes ≠ [] ∧ s.Hears outcomes (m.turnHeard (packRules pack)) ∧
        (m.step (packRules pack)).stack.entries = s.leaves outcomes lower) := by
  have entries : m.stack.entries = top :: (upper ++ lower) := within.entries
  have own := within.holds top List.mem_cons_self
  have others := fun entry member => within.holds entry (List.mem_cons_of_mem top member)
  have turn := own.turn pack (m := m.taking top (upper ++ lower)) within.wide within.keeps
  rw [← turnOperations_of_entries _ entries] at turn
  generalize same : m.turnOperations (packRules pack) = operations at turn
  cases turn with
  | works work =>
    have working := Within.of_works free entries others within.keeps within.wide
      (same.symm ▸ work)
    exact ⟨fun operation member => (work operation member).spares, .inl ⟨_, working⟩⟩
  | @returns pieces nonempty quiet =>
    have ends : ∀ operation ∈ m.turnOperations (packRules pack), s.Ends top.frame operation :=
      same.symm ▸ .of_pieces quiet
    have returns : returnsIn (m.turnOperations (packRules pack)) ≠ [] := by
      obtain ⟨piece, among⟩ := List.exists_mem_of_ne_nil pieces nonempty
      rw [same]
      refine List.ne_nil_of_mem (a := (top.frame, piece.2)) (mem_returnsIn.mpr ?_)
      exact List.mem_flatMap.mpr ⟨piece, among, List.mem_append_right _ List.mem_cons_self⟩
    refine ⟨fun operation member => (ends operation (same ▸ member)).spares, ?_⟩
    cases own.opened.sink with
    | own deeper sink =>
      exact .inl ⟨_, within.of_own free.reached below ends returns (Nat.lt_of_succ_lt deeper) sink⟩
    | base answers before sink =>
      refine .inr ⟨pieces.map (·.2), by simpa using nonempty, ?_, ?_⟩
      · rw [turnHeard_of_entries _ entries, same]
        exact .of_pieces before sink nonempty quiet _
      · have all : ∀ entry ∈ upper, s.boundary.covers entry.frame = true :=
          fun entry member => Scope.covers_opened valid (others entry member).opened
        unfold Scope.leaves
        rw [free.reached.drops entries ends returns, answers, List.dropWhile_append_of_pos all,
          if_neg (by simpa using nonempty)]

theorem Within.settles (free : m.FreeAbove pack lower)
    (valid : s.outer.boundary.depth ≤ s.outer.depth)
    (below : ∀ entry ∈ lower, s.outer.Precedes entry.frame) (within : m.Within s lower upper) :
    ∃ n outcomes, m.Episode pack s lower n outcomes ∧ (0 < n → upper ≠ []) := by
  obtain ⟨last, runs, stops⟩ := free.reached.last_turn
  induction last generalizing m upper with
  | zero =>
    cases upper with
    | nil => exact ⟨0, [], .nothing within.entries, fun positive => absurd positive (by decide)⟩
    | cons top upper => exact absurd (free.goes within.entries) stops
  | succ last ih =>
    cases upper with
    | nil => exact ⟨0, [], .nothing within.entries, fun positive => absurd positive (by decide)⟩
    | cons top upper =>
      have entries : m.stack.entries = top :: (upper ++ lower) := within.entries
      obtain ⟨spare, turn⟩ := within.step free valid below
      have goes := free.goes entries
      obtain ⟨left, next, own⟩ | ⟨outcomes, nonempty, hears, stack⟩ := turn
      · obtain ⟨n, outcomes, episode, waits⟩ :=
          ih (free.step entries) next ((runs_succ_iff _ last m).mp runs).2 stops
        refine ⟨n + 1, outcomes, .of_step goes own spare within.wide (fun positive => ?_) episode,
          fun _ => List.cons_ne_nil _ _⟩
        obtain ⟨first, rest, same⟩ := List.exists_cons_of_ne_nil (waits positive)
        refine ⟨first, rest, ?_, (next.holds first (same ▸ List.mem_cons_self)).opened⟩
        rw [next.entries, same]
        rfl
      · refine ⟨1, outcomes, ⟨(free.spends_turn entries rfl).runs, fun k less positive => ?_,
          fun k less => ?_, ?_, stack, ?_⟩, fun _ => List.cons_ne_nil _ _⟩
        · omega
        · rw [Nat.lt_one_iff.mp less]
          exact fun _ member => absurd member List.not_mem_nil
        · rw [log_one]
          exact hears
        · rw [log_one]
          exact step_follows _ spare within.wide

theorem FreeAbove.call_episode (free : m.FreeAbove pack lower) {outer : Frame packWords}
    {function : BoundFunction packWords} {base : Callback packWords} {returning : Bool}
    {source : PackSource}
    (entries : m.stack.entries = ⟨outer, .call function base returning source⟩ :: lower)
    (hosted : source.callback.Hosted) :
    ∃ n outcomes, 0 < n ∧
      m.Episode pack ⟨outer, returning, base, source.callback, m.heap⟩ lower n outcomes := by
  let s : Scope := ⟨outer, returning, base, source.callback, m.heap⟩
  let callee := outer.child base (if returning then some outer.boundary else none)
    m.heap.slots.size
  have opened : s.Opened callee := by
    refine ⟨?_, Nat.lt_succ_self _, Nat.le_refl _, .base ?_ ?_ (List.nil_append base).symm⟩
    · cases returning <;> rfl
    · cases returning <;> rfl
    · exact fun _ member => absurd member List.not_mem_nil
  have work : ∀ operation ∈ m.turnOperations (packRules pack), s.Works operation := by
    intro operation member
    rw [turnOperations_of_entries _ entries, operations, List.append_assoc] at member
    cases List.mem_append.mp member with
    | inr member => exact Scope.works_body function opened hosted.from operation member
    | inl member =>
      simp only [List.mem_cons, List.not_mem_nil, or_false] at member
      obtain rfl | rfl | rfl := member <;> trivial
  have keeps : s.Keeps m.heap := by
    intro cell young source member
    rw [Heap.collected_of_size_le _ young] at member
    cases member
  have wide : s.mark.Expands m.heap := .refl m.heap
  have top : m.stack.entries =
      ⟨outer, .call function base returning source⟩ :: ([] ++ lower) := entries
  obtain ⟨within, own⟩ := Within.of_works free top
    (fun _ member => absurd member List.not_mem_nil) keeps wide work
  obtain ⟨n, outcomes, episode, _⟩ := within.settles (free.step top)
    (free.reached.knows _ (entries ▸ List.mem_cons_self)).valid (free.reached.top_precedes entries)
  refine ⟨n + 1, outcomes, Nat.succ_pos n, .of_step (free.goes top) own
    (fun operation member => (work operation member).spares) wide (fun positive => ?_) episode⟩
  have last : .queue ⟨callee, .endFunction⟩ ∈ m.turnOperations (packRules pack) := by
    rw [turnOperations_of_entries _ entries]
    exact List.mem_append_right _ List.mem_cons_self
  have waits : Operation.queuedIn (m.turnOperations (packRules pack)) ≠ [] :=
    List.ne_nil_of_mem (List.mem_filterMap.mpr ⟨_, last, rfl⟩)
  obtain ⟨first, rest, same⟩ := List.exists_cons_of_ne_nil waits
  rw [same, List.append_nil] at within
  exact ⟨first, rest, within.entries, (within.holds first List.mem_cons_self).opened⟩

theorem Free.call_episode (free : m.Free pack) {outer : Frame packWords}
    {function : BoundFunction packWords} {base : Callback packWords} {returning : Bool}
    {source : PackSource}
    (entries : m.stack.entries = ⟨outer, .call function base returning source⟩ :: lower)
    (hosted : source.callback.Hosted) :
    ∃ n outcomes, 0 < n ∧
      m.Episode pack ⟨outer, returning, base, source.callback, m.heap⟩ lower n outcomes :=
  (free.above lower).call_episode entries hosted

end Machine

end PackEngine
