import PackEngine.Proofs.Returns

/-! The ledger of a run: the results of its functions, and one tally. Only the receivers of
callbacks enter anything into it. -/
namespace PackEngine

def World.Extends (before after : World) : Prop :=
  ∃ effects, after.journal.toList = before.journal.toList ++ effects ∧
    Journal.results effects = []

namespace World.Extends

theorem refl (w : World) : w.Extends w := ⟨[], (List.append_nil _).symm, rfl⟩

theorem trans {first second third : World} (before : first.Extends second)
    (after : second.Extends third) : first.Extends third := by
  obtain ⟨early, added, silentEarly⟩ := before
  obtain ⟨more, addedToo, silentMore⟩ := after
  refine ⟨early ++ more, ?_, ?_⟩
  · rw [addedToo, added, List.append_assoc]
  · unfold Journal.results at silentEarly silentMore ⊢
    rw [List.filterMap_append, silentEarly, silentMore]
    rfl

end World.Extends

theorem World.journal_add (w : World) (effect : Effect) :
    (w.add effect).journal = w.journal.push effect := by
  cases effect <;> rfl

theorem World.effectsSince_self (w : World) : w.effectsSince w.journal.size = [] := by
  unfold effectsSince
  rw [← Array.length_toList, List.drop_length]

theorem World.effectsSince_append {w v u : World} (first : w.journal.toList <+: v.journal.toList)
    (later : v.journal.toList <+: u.journal.toList) :
    u.effectsSince w.journal.size =
      v.effectsSince w.journal.size ++ u.effectsSince v.journal.size := by
  obtain ⟨between, middle⟩ := first
  obtain ⟨after, last⟩ := later
  unfold effectsSince
  rw [← Array.length_toList, ← Array.length_toList, ← last, List.drop_left, ← middle,
    List.append_assoc, List.drop_left, List.drop_left]

theorem Journal.results_append (first later : List Effect) :
    Journal.results (first ++ later) = Journal.results first ++ Journal.results later :=
  List.filterMap_append

theorem World.extends_add (w : World) {effect : Effect}
    (other : ∀ function outcome, effect ≠ .finished function outcome) :
    w.Extends (w.add effect) := by
  refine ⟨[effect], ?_, ?_⟩
  · rw [journal_add, Array.toList_push]
  · cases effect with
    | finished function outcome => exact absurd rfl (other function outcome)
    | _ => rfl

theorem World.extends_setScore (w : World) (holder objective : String) (value : Int32) :
    w.Extends (w.setScore holder objective value) :=
  w.extends_add fun _ _ same => nomatch same

theorem World.extends_traced (w : World) (tracer : TracerId) (item : PrintItem) :
    w.Extends (w.add (.traced tracer item)) :=
  w.extends_add fun _ _ same => nomatch same

namespace Persona

theorem extends_emit (p : Persona) (text : String) (w : World) : w.Extends (p.emit text w) := by
  unfold emit
  split
  · exact w.extends_add fun _ _ same => nomatch same
  · exact w.extends_add fun _ _ same => nomatch same
  · exact w.extends_add fun _ _ same => nomatch same

theorem extends_sendSuccess (p : Persona) (text : String) (w : World) :
    w.Extends (p.sendSuccess text w) := by
  unfold sendSuccess
  split
  · exact .refl w
  · exact p.extends_emit text w

theorem extends_sendFailure (p : Persona) (text : String) (w : World) :
    w.Extends (p.sendFailure text w) := by
  unfold sendFailure
  split
  · exact .refl w
  · exact p.extends_emit _ w

theorem extends_handleError (p : Persona) (error : CommandError) (forked : Bool) (w : World) :
    w.Extends (p.handleError error forked w) := by
  unfold handleError
  refine World.Extends.trans ?_ (World.extends_add _ fun _ _ same => nomatch same)
  split
  · exact .refl w
  · exact p.extends_sendFailure _ w

theorem extends_announceResult (p : Persona) (function : String) (outcome : Outcome)
    (w : World) : w.Extends (p.announceResult function outcome w) := by
  unfold announceResult
  split
  · exact p.extends_sendSuccess _ w
  · exact .refl w

end Persona

theorem Feedback.extends {change : World → World} (h : Feedback change) (w : World) :
    w.Extends (change w) := by
  cases h with
  | success persona text => exact persona.extends_sendSuccess text w
  | failure persona text => exact persona.extends_sendFailure text w
  | opened index => exact w.extends_add fun _ _ same => nomatch same

theorem LeafAction.extends_perform (source : PackSource) (w : World) (leaf : LeafAction) :
    w.Extends (leaf.perform source w).2 := by
  cases leaf with
  | say message => exact w.extends_add fun _ _ same => nomatch same
  | value n => exact .refl w
  | fail message => exact .refl w
  | add holder objective amount =>
    exact (w.extends_setScore _ _ _).trans (Persona.extends_sendSuccess _ _ _)
  | get holder objective =>
    simp only [perform]
    split
    · exact Persona.extends_sendSuccess _ _ _
    · exact .refl w

def Listener.Ordinary : Listener → Prop
  | .finished _ => False
  | _ => True

theorem Listener.Ordinary.extends {listener : Listener} (h : listener.Ordinary)
    (outcome : Outcome) (w : World) : w.Extends (listener.hear outcome w) := by
  cases listener with
  | named name => exact w.extends_add fun _ _ same => nomatch same
  | score stored holder objective =>
    cases stored <;> exact w.extends_setScore _ _ _
  | finished function => exact h.elim

structure Ledger where
  /-- Results since the run began. -/
  results : List (FunctionId × Outcome)
  tally : Option Tally

/-- The ledger of a run that began when the journal had `start` effects; the tally is the one
watched, if any. -/
def ledger (start : Nat) (watched : Option TallyId) (scene : Scene packWords) : Ledger :=
  ⟨Journal.results (scene.setting.effectsSince start),
    watched.bind fun id => scene.heap.tallies[id]?⟩

def Receiver.enter (watched : Option TallyId) (outcome : Outcome) (l : Ledger) :
    Receiver packWords → Ledger
  | .host (.finished function) => { l with results := l.results ++ [(function, outcome)] }
  | .tally id => if watched = some id then { l with tally := l.tally.map (·.add outcome) } else l
  | _ => l

variable {start : Nat} {watched : Option TallyId}

theorem World.Extends.size_le {before after : World} (h : before.Extends after) :
    before.journal.size ≤ after.journal.size := by
  obtain ⟨effects, added, _⟩ := h
  have size := congrArg List.length added
  simp only [Array.length_toList, List.length_append] at size
  omega

theorem ledger_extends {scene : Scene packWords} (begun : start ≤ scene.setting.journal.size)
    {w : World} (h : scene.setting.Extends w) :
    ledger start watched { scene with setting := w } = ledger start watched scene := by
  obtain ⟨effects, added, silent⟩ := h
  unfold ledger World.effectsSince
  rw [added, List.drop_append_of_le_length (by simpa using begun)]
  unfold Journal.results at silent ⊢
  rw [List.filterMap_append, silent, List.append_nil]

namespace Heap

variable {V : Vocabulary} {source : Source V} {cell : CellId} {h : Heap V}

theorem mem_collected_collect {other : Source V} {into : CellId}
    (member : source ∈ (h.collect into other).collected cell) :
    source ∈ h.collected cell ∨ into = cell ∧ source = other := by
  unfold collected collect at *
  simp only [Array.getElem?_modify] at member
  split at member
  · next same =>
    cases content : h.cells[cell]? with
    | none => simp [content] at member
    | some sources => simpa [content, same] using member
  · exact .inl member

theorem mem_collected_newCell (member : source ∈ h.newCell.2.collected cell) :
    source ∈ h.collected cell := by
  unfold collected newCell at *
  simp only [Array.getElem?_push] at member
  split at member
  · simp at member
  · exact member

theorem mem_collected_emptyCell {emptied : CellId}
    (member : source ∈ (h.emptyCell emptied).collected cell) : source ∈ h.collected cell := by
  unfold collected emptyCell at *
  simp only [Array.getElem?_setIfInBounds] at member
  split at member
  · split at member <;> simp at member
  · exact member

end Heap

def Callback.Ordinary (callback : Callback packWords) : Prop :=
  ∀ receiver ∈ callback, ∃ listener : Listener, receiver = .host listener ∧ listener.Ordinary

def Receiver.Sane : Receiver packWords → Prop
  | .collect _ _ _ callback => Callback.Ordinary callback
  | _ => True

def Receiver.Quiet (watched : Option TallyId) : Receiver packWords → Prop
  | .collect _ _ _ callback => Callback.Ordinary callback
  | .tally id => watched ≠ some id
  | .host listener => Listener.Ordinary listener
  | _ => True

theorem Receiver.Quiet.sane {receiver : Receiver packWords} (h : receiver.Quiet watched) :
    receiver.Sane := by
  cases receiver with
  | collect cell polarity persona callback => exact h
  | _ => trivial

theorem Receiver.Quiet.enter {receiver : Receiver packWords} (h : receiver.Quiet watched)
    (outcome : Outcome) (l : Ledger) : receiver.enter watched outcome l = l := by
  cases receiver with
  | host listener =>
    cases listener with
    | finished function => exact h.elim
    | _ => rfl
  | tally id => exact if_neg h
  | _ => rfl

theorem Callback.Ordinary.quiet {callback : Callback packWords} (h : callback.Ordinary)
    (watched : Option TallyId) : ∀ receiver ∈ callback, receiver.Quiet watched := by
  intro receiver member
  obtain ⟨listener, rfl, ordinary⟩ := h receiver member
  exact ordinary

/-- The run began here or before, the watched tally has been opened, and no source that is put
aside would enter anything. -/
structure Calm (start : Nat) (watched : Option TallyId) (scene : Scene packWords) : Prop where
  begun : start ≤ scene.setting.journal.size
  opened : ∀ id, watched = some id → id < scene.heap.tallies.size
  cells : ∀ cell, ∀ source ∈ scene.heap.collected cell, Callback.Ordinary source.callback

theorem Calm.extends {scene : Scene packWords} (calm : Calm start watched scene) {w : World}
    (h : scene.setting.Extends w) : Calm start watched { scene with setting := w } :=
  ⟨Nat.le_trans calm.begun h.size_le, calm.opened, calm.cells⟩

section

variable {pack : Pack}

theorem Receiver.hear_ledger {receiver : Receiver packWords} (sane : receiver.Sane)
    (outcome : Outcome) {scene : Scene packWords} (calm : Calm start watched scene) :
    Calm start watched (receiver.hear (packRules pack) outcome scene) ∧
      ledger start watched (receiver.hear (packRules pack) outcome scene) =
        receiver.enter watched outcome (ledger start watched scene) := by
  have told {w : World} (h : scene.setting.Extends w) :
      Calm start watched { scene with setting := w } ∧
        ledger start watched { scene with setting := w } = ledger start watched scene :=
    ⟨calm.extends h, ledger_extends calm.begun h⟩
  cases receiver with
  | slot id => exact ⟨⟨calm.begun, calm.opened, calm.cells⟩, rfl⟩
  | tally id =>
    refine ⟨⟨calm.begun, fun other same => ?_, calm.cells⟩, ?_⟩
    · simpa [hear, Heap.addToTally] using calm.opened other same
    · unfold enter ledger
      cases watched with
      | none => rfl
      | some other =>
        simp only [hear, Heap.addToTally, Option.bind_some, Array.getElem?_modify,
          Option.some.injEq]
        by_cases same : id = other
        · rw [if_pos same, if_pos same.symm]
        · rw [if_neg same, if_neg (Ne.symm same)]
  | collect cell polarity persona callback =>
    simp only [hear]
    split
    · refine ⟨⟨calm.begun, calm.opened, fun other source member => ?_⟩, rfl⟩
      cases Heap.mem_collected_collect member with
      | inl before => exact calm.cells other source before
      | inr put =>
        rw [put.2]
        exact sane
    · exact ⟨calm, rfl⟩
  | announce persona function => exact told (persona.extends_announceResult _ _ _)
  | host listener =>
    cases listener with
    | finished function =>
      have pushed : (scene.setting.add (.finished function outcome)).journal.toList =
          scene.setting.journal.toList ++ [.finished function outcome] := by
        rw [World.journal_add, Array.toList_push]
      refine ⟨⟨?_, calm.opened, calm.cells⟩, ?_⟩
      · have size := congrArg List.length pushed
        simp only [Array.length_toList, List.length_append] at size
        have begun := calm.begun
        show start ≤ (scene.setting.add (.finished function outcome)).journal.size
        omega
      · show Ledger.mk (Journal.results (World.effectsSince
          (scene.setting.add (.finished function outcome)) start)) _ = _
        unfold World.effectsSince
        rw [pushed, List.drop_append_of_le_length (by simpa using calm.begun)]
        unfold Journal.results
        rw [List.filterMap_append]
        rfl
    | named name =>
      have ordinary : (Listener.named name).Ordinary := trivial
      exact told (ordinary.extends outcome _)
    | score stored holder objective =>
      have ordinary : (Listener.score stored holder objective).Ordinary := trivial
      exact told (ordinary.extends outcome _)

theorem Callback.deliver_ledger {callback : Callback packWords}
    (sane : ∀ receiver ∈ callback, receiver.Sane) (outcome : Outcome) {scene : Scene packWords}
    (calm : Calm start watched scene) :
    Calm start watched (callback.deliver (packRules pack) outcome scene) ∧
      ledger start watched (callback.deliver (packRules pack) outcome scene) =
        callback.foldl (Receiver.enter watched outcome) (ledger start watched scene) := by
  induction callback generalizing scene with
  | nil => exact ⟨calm, rfl⟩
  | cons receiver rest ih =>
    obtain ⟨stays, entered⟩ :=
      Receiver.hear_ledger (sane receiver List.mem_cons_self) outcome calm
    have later := ih (fun other member => sane other (List.mem_cons_of_mem _ member)) stays
    rw [entered] at later
    exact later

theorem Callback.foldl_enter_quiet {callback : Callback packWords}
    (quiet : ∀ receiver ∈ callback, receiver.Quiet watched) (outcome : Outcome) (l : Ledger) :
    callback.foldl (Receiver.enter watched outcome) l = l := by
  induction callback generalizing l with
  | nil => rfl
  | cons receiver rest ih =>
    rw [List.foldl_cons, (quiet receiver List.mem_cons_self).enter outcome l]
    exact ih (fun other member => quiet other (List.mem_cons_of_mem _ member)) l

def Operation.Silent (pack : Pack) (start : Nat) (watched : Option TallyId)
    (operation : Operation packWords) : Prop :=
  ∀ m : Machine packWords, Calm start watched m.toScene →
    Calm start watched (operation.apply (packRules pack) m).toScene ∧
      ledger start watched (operation.apply (packRules pack) m).toScene =
        ledger start watched m.toScene

namespace Operation.Silent

theorem of_setting {operation : Operation packWords}
    (h : ∀ m : Machine packWords, ∃ w, m.setting.Extends w ∧
      (operation.apply (packRules pack) m).toScene = { m.toScene with setting := w }) :
    operation.Silent pack start watched := by
  intro m calm
  obtain ⟨w, extended, same⟩ := h m
  rw [same]
  exact ⟨calm.extends extended, ledger_extends calm.begun extended⟩

theorem of_scene {operation : Operation packWords}
    (h : ∀ m : Machine packWords, (operation.apply (packRules pack) m).toScene = m.toScene) :
    operation.Silent pack start watched :=
  of_setting fun m => ⟨m.setting, .refl _, h m⟩

theorem of_deliver {callback : Callback packWords}
    (quiet : ∀ receiver ∈ callback, receiver.Quiet watched) (outcome : Outcome) :
    (Operation.deliver callback outcome).Silent pack start watched := by
  intro m calm
  obtain ⟨stays, entered⟩ := Callback.deliver_ledger
    (fun receiver member => (quiet receiver member).sane) outcome calm
  exact ⟨stays, entered.trans (Callback.foldl_enter_quiet quiet outcome _)⟩

theorem update {change : World → World} (h : ∀ w, World.Extends w (change w)) :
    (Operation.update (V := packWords) change).Silent pack start watched :=
  of_setting fun m => ⟨_, h m.setting, rfl⟩

theorem trace (event : TraceEvent) :
    (Operation.trace (V := packWords) event).Silent pack start watched := by
  refine of_setting fun m => ?_
  simp only [Operation.apply, Machine.trace]
  cases m.tracer with
  | none => exact ⟨m.setting, .refl _, rfl⟩
  | some tracer => exact ⟨_, World.extends_traced _ _ _, rfl⟩

theorem report (source : PackSource) (error : CommandError) (forked : Bool) :
    (Operation.report source error forked).Silent pack start watched := by
  refine of_setting fun m => ?_
  simp only [Operation.apply, Machine.report, Machine.trace]
  cases m.tracer with
  | none => exact ⟨_, Persona.extends_handleError _ _ _ _, rfl⟩
  | some tracer =>
    exact ⟨_, (World.extends_traced _ _ _).trans (Persona.extends_handleError _ _ _ _), rfl⟩

theorem queue (entry : Entry packWords) :
    (Operation.queue entry).Silent pack start watched := by
  refine of_scene fun m => ?_
  exact m.enqueue_toScene entry

theorem attach (tracer : TracerId) :
    (Operation.attach (V := packWords) tracer).Silent pack start watched := by
  refine of_scene fun m => ?_
  simp only [Operation.apply]
  split <;> rfl

theorem charge : (Operation.charge (V := packWords)).Silent pack start watched :=
  of_scene fun _ => rfl

theorem detach : (Operation.detach (V := packWords)).Silent pack start watched :=
  of_scene fun _ => rfl

theorem of_heap {operation : Operation packWords}
    (h : ∀ m : Machine packWords, ∃ heap,
      (operation.apply (packRules pack) m).toScene = { m.toScene with heap := heap } ∧
        heap.tallies = m.heap.tallies ∧
        ∀ cell, ∀ source ∈ heap.collected cell, source ∈ m.heap.collected cell) :
    operation.Silent pack start watched := by
  intro m calm
  obtain ⟨heap, same, tallies, cells⟩ := h m
  rw [same]
  refine ⟨⟨calm.begun, fun id known => ?_, fun cell source member => ?_⟩, ?_⟩
  · exact tallies ▸ calm.opened id known
  · exact calm.cells cell source (cells cell source member)
  · unfold ledger
    dsimp only
    rw [tallies]

theorem record (frame : Frame packWords) (outcome : Outcome) :
    (Operation.record frame outcome).Silent pack start watched :=
  of_heap fun _ => ⟨_, rfl, rfl, fun _ _ member => member⟩

theorem newSlot : (Operation.newSlot (V := packWords)).Silent pack start watched :=
  of_heap fun _ => ⟨_, rfl, rfl, fun _ _ member => member⟩

theorem newCell : (Operation.newCell (V := packWords)).Silent pack start watched :=
  of_heap fun _ => ⟨_, rfl, rfl, fun _ _ member => Heap.mem_collected_newCell member⟩

theorem emptyCell (cell : CellId) :
    (Operation.emptyCell (V := packWords) cell).Silent pack start watched :=
  of_heap fun _ => ⟨_, rfl, rfl, fun _ _ member => Heap.mem_collected_emptyCell member⟩

theorem newTally : (Operation.newTally (V := packWords)).Silent pack start watched := by
  intro m calm
  refine ⟨⟨calm.begun, fun id known => ?_, calm.cells⟩, ?_⟩
  · simp only [Operation.apply, Heap.newTally, Array.size_push]
    exact Nat.lt_succ_of_lt (calm.opened id known)
  · unfold ledger
    cases known : watched with
    | none => rfl
    | some id =>
      have older := calm.opened id known
      simp only [Operation.apply, Heap.newTally, Option.bind_some]
      rw [Array.getElem?_push_lt older, Array.getElem?_eq_getElem older]

theorem deliverTally (tally : TallyId) {callback : Callback packWords}
    (quiet : ∀ receiver ∈ callback, receiver.Quiet watched) :
    (Operation.deliverTally tally callback).Silent pack start watched := by
  intro m calm
  simp only [Operation.apply, Callback.deliverTally]
  split
  · exact of_deliver quiet _ m calm
  · exact ⟨calm, rfl⟩

end Operation.Silent

def entered (watched : Option TallyId) (returns : List (Frame packWords × Outcome)) (l : Ledger) :
    Ledger :=
  returns.foldl (fun l r => r.1.sink.foldl (Receiver.enter watched r.2) l) l

inductive Operation.Accounted (pack : Pack) (start : Nat) (watched : Option TallyId) :
    Operation packWords → Prop where
  | returns {frame : Frame packWords} (outcome : Outcome)
      (sane : ∀ receiver ∈ frame.sink, receiver.Sane) :
      Accounted pack start watched (.returnFrom frame outcome)
  | silent {operation : Operation packWords} (other : operation.returned? = none)
      (silent : operation.Silent pack start watched) : Accounted pack start watched operation

/-- The ledger after accounted operations is that of their returns. -/
theorem ledger_applyAll {operations : List (Operation packWords)}
    (accounted : ∀ operation ∈ operations, operation.Accounted pack start watched)
    {m : Machine packWords} (calm : Calm start watched m.toScene) :
    Calm start watched (Operation.applyAll (packRules pack) operations m).toScene ∧
      ledger start watched (Operation.applyAll (packRules pack) operations m).toScene =
        entered watched (returnsIn operations) (ledger start watched m.toScene) := by
  induction operations generalizing m with
  | nil => exact ⟨calm, rfl⟩
  | cons operation rest ih =>
    have others := fun other member => accounted other (List.mem_cons_of_mem operation member)
    cases accounted operation List.mem_cons_self with
    | @returns frame outcome sane =>
      obtain ⟨stays, heard⟩ :
          Calm start watched (m.returnFrom (packRules pack) frame outcome).toScene ∧ _ :=
        Callback.deliver_ledger sane outcome calm
      obtain ⟨calmLater, later⟩ := ih others stays
      exact ⟨calmLater, later.trans (congrArg _ heard)⟩
    | silent other silent =>
      obtain ⟨stays, same⟩ := silent m calm
      obtain ⟨calmLater, later⟩ := ih others stays
      refine ⟨calmLater, later.trans ?_⟩
      rw [same]
      unfold returnsIn
      rw [List.filterMap_cons_none other]

end

end PackEngine
