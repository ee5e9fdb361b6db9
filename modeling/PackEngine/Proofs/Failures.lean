import PackEngine.Proofs.Hearings
import PackEngine.Proofs.Endings
import PackEngine.Proofs.Openings

/-! Results of failures. Wherever a run of a pack delivers, records or adds up an outcome, a
failure comes with the value zero, so that conditions may look at values alone. -/
namespace PackEngine

def Outcome.Sound (outcome : Outcome) : Prop := outcome.success = false → outcome.value = 0

theorem Outcome.sound_ok (value : Int32) : (Outcome.ok value).Sound := fun failed => nomatch failed

theorem Outcome.sound_failure : Outcome.failure.Sound := fun _ => rfl

theorem Outcome.Sound.passes {outcome : Outcome} (sound : outcome.Sound)
    (failed : outcome.success = false) (polarity : Polarity) :
    polarity.passes outcome.value = true ↔ polarity = .fails := by
  rw [sound failed]
  cases polarity <;> decide

def Tally.Sound (tally : Tally) : Prop := tally.success = false → tally.sum = 0

theorem Tally.Sound.add {tally : Tally} (sound : tally.Sound) {outcome : Outcome}
    (heard : outcome.Sound) : (tally.add outcome).Sound := by
  intro failed
  obtain ⟨before, now⟩ := Bool.or_eq_false_iff.mp failed
  show tally.sum + outcome.value = 0
  rw [sound before, heard now]
  rfl

theorem Tally.Sound.total {tally : Tally} (sound : tally.Sound) {outcome : Outcome}
    (total : tally.total? = some outcome) : outcome.Sound := by
  unfold total? at total
  split at total
  · cases total
    exact sound
  · cases total

/-- Slots and tallies hold no failure with another value than zero. -/
structure Heap.Sound {V : Vocabulary} (h : Heap V) : Prop where
  slots : ∀ outcome, some outcome ∈ h.slots → outcome.Sound
  tallies : ∀ tally ∈ h.tallies, tally.Sound

namespace Heap.Sound

variable {V : Vocabulary} {h : Heap V}

theorem recorded (sound : h.Sound) {slot : SlotId} {outcome : Outcome}
    (found : h.recorded slot = some outcome) : outcome.Sound :=
  sound.slots outcome (Array.mem_of_getElem? (Option.join_eq_some_iff.mp found))

theorem total (sound : h.Sound) {tally : TallyId} {outcome : Outcome}
    (found : h.total? tally = some outcome) : outcome.Sound := by
  obtain ⟨present, held, total⟩ := Option.bind_eq_some_iff.mp found
  exact (sound.tallies present (Array.mem_of_getElem? held)).total total

theorem record (sound : h.Sound) (slot : SlotId) {outcome : Outcome} (heard : outcome.Sound) :
    (h.record slot outcome).Sound := by
  refine ⟨fun other member => ?_, sound.tallies⟩
  obtain before | same := Array.mem_or_eq_of_mem_setIfInBounds member
  · exact sound.slots other before
  · cases same
    exact heard

theorem addToTally (sound : h.Sound) (tally : TallyId) {outcome : Outcome}
    (heard : outcome.Sound) : (h.addToTally tally outcome).Sound := by
  refine ⟨sound.slots, fun other member => ?_⟩
  obtain ⟨i, bound, same⟩ := Array.mem_iff_getElem.mp member
  have within : i < h.tallies.size := by simpa [Heap.addToTally] using bound
  have present := sound.tallies _ (Array.getElem_mem within)
  rw [← same]
  simp only [Heap.addToTally, Array.getElem_modify]
  split
  · exact present.add heard
  · exact present

theorem newSlot (sound : h.Sound) : h.newSlot.2.Sound := by
  refine ⟨fun outcome member => ?_, sound.tallies⟩
  obtain before | same := Array.mem_push.mp member
  · exact sound.slots outcome before
  · cases same

theorem newTally (sound : h.Sound) : h.newTally.2.Sound := by
  refine ⟨sound.slots, fun tally member => ?_⟩
  obtain before | same := Array.mem_push.mp member
  · exact sound.tallies tally before
  · rw [same]
    exact fun _ => rfl

end Heap.Sound

structure Scene.Sound (start : Nat) (scene : Scene packWords) : Prop where
  heap : scene.heap.Sound
  begun : start ≤ scene.setting.journal.size
  results : ∀ result ∈ Journal.results (scene.setting.effectsSince start), result.2.Sound

namespace Scene.Sound

variable {start : Nat} {scene : Scene packWords} {pack : Pack}

theorem of_heap (sound : scene.Sound start) {heap : Heap packWords} (h : heap.Sound) :
    ({ scene with heap := heap } : Scene packWords).Sound start :=
  ⟨h, sound.begun, sound.results⟩

theorem of_extends (sound : scene.Sound start) {w : World} (h : scene.setting.Extends w) :
    ({ scene with setting := w } : Scene packWords).Sound start := by
  refine ⟨sound.heap, Nat.le_trans sound.begun h.size_le, ?_⟩
  have same : Journal.results (w.effectsSince start) =
      Journal.results (scene.setting.effectsSince start) :=
    congrArg Ledger.results (show ledger start none _ = ledger start none scene from
      ledger_extends sound.begun h)
  exact fun result member => sound.results result (same ▸ member)

theorem hear (sound : scene.Sound start) {outcome : Outcome} (heard : outcome.Sound)
    (receiver : Receiver packWords) :
    (receiver.hear (packRules pack) outcome scene).Sound start := by
  cases receiver with
  | slot id => exact sound.of_heap (sound.heap.record id heard)
  | tally id => exact sound.of_heap (sound.heap.addToTally id heard)
  | collect cell polarity persona callback =>
    simp only [Receiver.hear]
    split
    · exact sound.of_heap ⟨sound.heap.slots, sound.heap.tallies⟩
    · exact sound
  | announce persona function => exact sound.of_extends (persona.extends_announceResult _ _ _)
  | host listener =>
    cases listener with
    | named name =>
      have ordinary : (Listener.named name).Ordinary := trivial
      exact sound.of_extends (ordinary.extends outcome _)
    | score stored holder objective =>
      have ordinary : (Listener.score stored holder objective).Ordinary := trivial
      exact sound.of_extends (ordinary.extends outcome _)
    | finished function =>
      have pushed : (scene.setting.add (.finished function outcome)).journal.toList =
          scene.setting.journal.toList ++ [.finished function outcome] := by
        rw [World.journal_add, Array.toList_push]
      have longer : start ≤ (scene.setting.add (.finished function outcome)).journal.size := by
        rw [World.journal_add, Array.size_push]
        exact Nat.le_succ_of_le sound.begun
      refine ⟨sound.heap, longer, fun result member => ?_⟩
      change result ∈ Journal.results (World.effectsSince
        (scene.setting.add (.finished function outcome)) start) at member
      unfold World.effectsSince at member
      rw [pushed, List.drop_append_of_le_length (by simpa using sound.begun),
        Journal.results_append] at member
      cases List.mem_append.mp member with
      | inl before => exact sound.results result before
      | inr told =>
        rw [List.mem_singleton.mp told]
        exact heard

theorem deliver (sound : scene.Sound start) {outcome : Outcome} (heard : outcome.Sound)
    (callback : Callback packWords) :
    (callback.deliver (packRules pack) outcome scene).Sound start := by
  induction callback generalizing scene with
  | nil => exact sound
  | cons receiver rest ih => exact ih (sound.hear heard receiver)

end Scene.Sound

namespace Operation

variable {start : Nat} {pack : Pack}

def Sound : Operation packWords → Prop
  | .returnFrom _ outcome => outcome.Sound
  | .record _ outcome => outcome.Sound
  | .deliver _ outcome => outcome.Sound
  | .update change => ∀ w : World, w.Extends (change w)
  | _ => True

theorem Sound.applied {operation : Operation packWords} (h : operation.Sound) (pack : Pack)
    {m : Machine packWords} (sound : m.toScene.Sound start) :
    (operation.apply (packRules pack) m).toScene.Sound start ∧
      ∀ heard ∈ operation.heard m, heard.2.Sound := by
  have silent : ∀ heard ∈ ([] : List (Hearing packWords)), heard.2.Sound := by simp
  have hears (callback : Callback packWords) {outcome : Outcome} (told : outcome.Sound) :
      ∀ heard ∈ callback.hearing outcome, heard.2.Sound := by
    intro heard member
    obtain ⟨receiver, _, rfl⟩ := List.mem_map.mp member
    exact told
  cases operation with
  | queue entry =>
    have same : (apply (packRules pack) m (.queue entry)).toScene = m.toScene :=
      m.enqueue_toScene entry
    rw [same]
    exact ⟨sound, silent⟩
  | returnFrom frame outcome => exact ⟨sound.deliver h frame.sink, hears frame.sink h⟩
  | record frame outcome => exact ⟨sound.of_heap (sound.heap.record frame.slot h), silent⟩
  | deliver callback outcome => exact ⟨sound.deliver h callback, hears callback h⟩
  | deliverTally tally callback =>
    simp only [Operation.apply, heard, Callback.deliverTally]
    cases total : m.heap.total? tally with
    | none => exact ⟨sound, silent⟩
    | some outcome =>
      have told := sound.heap.total total
      exact ⟨sound.deliver told callback, hears callback told⟩
  | report source error forked =>
    refine ⟨?_, silent⟩
    simp only [Operation.apply, Machine.report, Machine.trace]
    cases m.tracer with
    | none => exact sound.of_extends (Persona.extends_handleError _ _ _ _)
    | some tracer =>
      exact sound.of_extends
        ((World.extends_traced _ _ _).trans (Persona.extends_handleError _ _ _ _))
  | attach tracer =>
    refine ⟨?_, silent⟩
    simp only [Operation.apply]
    split <;> exact sound
  | newSlot => exact ⟨sound.of_heap sound.heap.newSlot, silent⟩
  | newTally => exact ⟨sound.of_heap sound.heap.newTally, silent⟩
  | trace event =>
    refine ⟨?_, silent⟩
    simp only [Operation.apply, Machine.trace]
    cases m.tracer with
    | none => exact sound
    | some tracer => exact sound.of_extends (World.extends_traced _ _ _)
  | update change => exact ⟨sound.of_extends (h m.setting), silent⟩
  | newCell => exact ⟨sound.of_heap ⟨sound.heap.slots, sound.heap.tallies⟩, silent⟩
  | collect cell source => exact ⟨sound.of_heap ⟨sound.heap.slots, sound.heap.tallies⟩, silent⟩
  | emptyCell cell => exact ⟨sound.of_heap ⟨sound.heap.slots, sound.heap.tallies⟩, silent⟩
  | detach => exact ⟨sound, silent⟩
  | charge => exact ⟨sound, silent⟩

theorem sound_applyAll {operations : List (Operation packWords)}
    (all : ∀ operation ∈ operations, operation.Sound) {m : Machine packWords}
    (sound : m.toScene.Sound start) :
    (applyAll (packRules pack) operations m).toScene.Sound start ∧
      ∀ heard ∈ allHeard (packRules pack) operations m, heard.2.Sound := by
  induction operations generalizing m with
  | nil => exact ⟨sound, fun _ member => absurd member List.not_mem_nil⟩
  | cons operation rest ih =>
    obtain ⟨stays, now⟩ := (all operation List.mem_cons_self).applied pack sound
    obtain ⟨ends, later⟩ := ih (fun other member => all other (List.mem_cons_of_mem _ member)) stays
    exact ⟨ends, fun heard member => (List.mem_append.mp member).elim (now heard) (later heard)⟩

end Operation

section

variable {pack : Pack} {frame : Frame packWords} {issuer : PackSource} {chain : Chain packWords}
  {tallies : Nat} {C : Callback packWords → Prop}

theorem LineWork.sound {operation : Operation packWords}
    (h : LineWork frame issuer chain tallies C operation) : operation.Sound := by
  cases h with
  | refuse heard => exact Outcome.sound_failure
  | record => exact Outcome.sound_failure
  | tell feedback => exact feedback.extends
  | _ => trivial

theorem CallAction.returned?_sound {action : CallAction} {outcome : Outcome}
    (returned : action.returned? = some outcome) : outcome.Sound := by
  cases action with
  | returnValue value =>
    cases returned
    exact Outcome.sound_ok value
  | returnFail =>
    cases returned
    exact Outcome.sound_failure
  | function target arguments => cases returned
  | debug target => cases returned

theorem PackLine.sound {operations : List (Operation packWords)}
    (h : PackLine frame issuer chain tallies C operations) :
    ∀ operation ∈ operations, operation.Sound := by
  intro operation member
  cases h with
  | works work => exact (work operation member).sound
  | returns quiet ends returned present heard =>
    cases List.mem_append.mp member with
    | inl member => exact (quiet operation member).2.sound
    | inr member =>
      obtain ⟨source, _, among⟩ := List.mem_flatMap.mp member
      simp only [List.mem_cons, List.not_mem_nil, or_false] at among
      obtain rfl | rfl := among <;> exact CallAction.returned?_sound returned

theorem leafOperations_sound (line : LeafLine packWords) (source : PackSource)
    (m : Machine packWords) :
    ∀ operation ∈ Machine.leafOperations (packRules pack) frame line source m,
      operation.Sound := by
  have acts (w : World) : w.Extends (line.leaf.perform source w).2 :=
    LeafAction.extends_perform source w line.leaf
  have finish {outcome : Outcome} (told : outcome.Sound) :
      ∀ operation ∈ [Operation.deliver source.callback outcome, .record frame outcome] ++
        (if line.flags.isReturn then [.returnFrom frame outcome] else []), operation.Sound := by
    refine List.forall_mem_append.mpr ⟨?_, ?_⟩
    · exact List.forall_mem_cons.mpr ⟨told, List.forall_mem_singleton.mpr told⟩
    · split
      · exact List.forall_mem_singleton.mpr told
      · exact fun _ member => absurd member List.not_mem_nil
  intro operation member
  unfold Machine.leafOperations at member
  cases List.mem_append.mp member with
  | inl first =>
    simp only [List.mem_cons, List.not_mem_nil, or_false] at first
    obtain rfl | rfl := first
    · trivial
    · exact acts
  | inr later =>
    split at later
    · obtain rfl | later := List.mem_cons.mp later
      · trivial
      · exact finish (Outcome.sound_ok _) operation later
    · obtain rfl | later := List.mem_cons.mp later
      · trivial
      · obtain rfl | later := List.mem_cons.mp later
        · trivial
        · exact finish Outcome.sound_failure operation later

theorem PackTask.sound {task : Task packWords} (h : PackTask task) {m : Machine packWords}
    (sound : m.heap.Sound) :
    ∀ operation ∈ m.operations (packRules pack) frame task, operation.Sound := by
  cases h with
  | line issuer sources chain flags topLevel =>
    exact (line_operations keepsStores_true trivial sources flags topLevel m
      fun _ _ => trivial).sound
  | execute line source => exact leafOperations_sound line source m
  | drip line sources =>
    intro operation member
    cases sources with
    | nil => cases member
    | cons source rest => 
      obtain rfl | rfl := mem_dripOperations member <;> trivial
  | call function callback returnCall source =>
    intro operation member
    simp only [Machine.operations, List.mem_append, List.mem_cons, List.mem_map,
      List.not_mem_nil, or_false] at member
    obtain ((rfl | rfl | rfl) | ⟨line, _, rfl⟩) | rfl := member <;> trivial
  | endFunction =>
    intro operation member
    simp only [Machine.operations] at member
    split at member
    · next outcome found =>
      rw [List.mem_singleton.mp member]
      exact sound.recorded found
    · cases member
  | condition bound callee output =>
    intro operation member
    simp only [Machine.operations, conditionProducer_operations, List.mem_append,
      List.mem_cons, List.mem_map, List.not_mem_nil, or_false] at member
    obtain rfl | ⟨function, _, rfl⟩ | rfl := member <;> trivial
  | fallthrough =>
    intro operation member
    rw [List.mem_singleton.mp member]
    exact Outcome.sound_failure
  | total tally sink =>
    intro operation member
    rw [List.mem_singleton.mp member]
    trivial
  | heading index item =>
    intro operation member
    rw [List.mem_singleton.mp member]
    exact fun w => w.extends_traced _ _
  | closing index source text =>
    intro operation member
    have form : m.operations (packRules pack) frame (.deferred (traceClosing index source text)) =
        [.detach, .update (World.add (.traced (.opened index) .flush)),
          .update (source.persona.sendSuccess text)] := rfl
    rw [form] at member
    simp only [List.mem_cons, List.not_mem_nil, or_false] at member
    obtain rfl | rfl | rfl := member
    · trivial
    · exact fun w => w.extends_traced _ _
    · exact fun w => source.persona.extends_sendSuccess text w

end

namespace Machine

variable {pack : Pack} {start : Nat} {m : Machine packWords}

/-- A turn of a pack's run brings along sound outcomes only. -/
theorem Reached.sound_turn (h : Reached (packRules pack) PackTask m) (sound : m.heap.Sound) :
    ∀ operation ∈ m.turnOperations (packRules pack), operation.Sound := by
  cases entries : m.stack.entries with
  | nil =>
    unfold turnOperations
    rw [entries]
    exact fun _ member => absurd member List.not_mem_nil
  | cons entry rest =>
    rw [turnOperations_of_entries _ entries]
    exact (h.packTasks entry (entries ▸ List.mem_cons_self)).sound
      (m := m.taking entry rest) sound

theorem Reached.sound_step (h : Reached (packRules pack) PackTask m)
    (sound : m.toScene.Sound start) :
    (m.step (packRules pack)).toScene.Sound start ∧
      ∀ heard ∈ m.turnHeard (packRules pack), heard.2.Sound := by
  have brought := h.sound_turn sound.heap
  cases entries : m.stack.entries with
  | nil =>
    unfold turnHeard
    rw [step_of_nil _ entries, entries]
    exact ⟨sound, fun _ member => absurd member List.not_mem_nil⟩
  | cons entry rest =>
    rw [step_eq_applyAll _ entries, turnHeard_of_entries _ entries]
    exact Operation.sound_applyAll (m := m.taking entry rest) brought sound

theorem Reached.sound_after (h : Reached (packRules pack) PackTask m)
    (sound : m.toScene.Sound start) {n : Nat} (runs : m.Runs (packRules pack) n) :
    (m.after (packRules pack) n).toScene.Sound start := by
  induction n with
  | zero => exact sound
  | succ n ih =>
    have before := runs.mono (Nat.le_succ n)
    rw [after_succ]
    exact ((h.after before).sound_step (ih before)).1

end Machine

theorem RunRequest.opening_sound (request : RunRequest)
    (functions : List (BoundFunction packWords)) (w : World) :
    (request.opening functions w).toScene.Sound w.journal.size := by
  rw [(request.opening_start functions w).1]
  refine ⟨⟨fun outcome member => ?_, fun _ member => absurd member (Array.not_mem_empty _)⟩,
    Nat.le_refl _, ?_⟩
  · cases (Array.mem_replicate.mp member).2
  · rw [show World.effectsSince w w.journal.size = [] from w.effectsSince_self]
    exact fun _ member => absurd member List.not_mem_nil

/-- Failures carry zero. Whatever the turns of a run deliver to receivers, return from frames or
record in slots, and whatever slots, tallies and reports hold, is zero if it is a failure; so a
condition takes each failure that it hears for a zero. -/
theorem failures_carry_zero (pack : Pack) (request : RunRequest) (w : World) :
    (∀ functions n, (request.opening functions w).Runs (packRules pack) n →
      let m := (request.opening functions w).after (packRules pack) n
      (∀ slot outcome, m.heap.recorded slot = some outcome →
        outcome.success = false → outcome.value = 0) ∧
      (∀ tally outcome, m.heap.total? tally = some outcome →
        outcome.success = false → outcome.value = 0) ∧
      (∀ receiver outcome, (receiver, outcome) ∈ m.turnHeard (packRules pack) →
        outcome.success = false → outcome.value = 0 ∧
          ∀ cell polarity persona callback, receiver = .collect cell polarity persona callback →
            (polarity.passes outcome.value = true ↔ polarity = .fails)) ∧
      ∀ frame outcome, (.record frame outcome ∈ m.turnOperations (packRules pack) ∨
        .returnFrom frame outcome ∈ m.turnOperations (packRules pack)) →
          outcome.success = false → outcome.value = 0) ∧
    ∀ turns report final, runTarget pack turns request w = some (.ok report, final) →
      ∀ function outcome, (function, outcome) ∈ report.results →
        outcome.success = false → outcome.value = 0 := by
  have runs (functions : List (BoundFunction packWords)) (n : Nat)
      (runs : (request.opening functions w).Runs (packRules pack) n) :=
    (request.opening_reached functions w pack).sound_after (request.opening_sound functions w) runs
  refine ⟨fun functions n further => ?_, fun turns report final ends function outcome among => ?_⟩
  · have reached := (request.opening_reached functions w pack).after further
    have sound := runs functions n further
    refine ⟨fun _ _ => sound.heap.recorded, fun _ _ => sound.heap.total, ?_, ?_⟩
    · intro receiver outcome heard failed
      have told := (reached.sound_step sound).2 _ heard
      exact ⟨told failed, fun _ polarity _ _ _ => told.passes failed polarity⟩
    · rintro frame outcome (records | returns)
      · exact reached.sound_turn sound.heap _ records
      · exact reached.sound_turn sound.heap _ returns
  · rw [RunRequest.runTarget_eq] at ends
    cases found : request.functions pack with
    | error error =>
      rw [found] at ends
      cases ends
    | ok functions =>
      rw [found, Option.map_eq_some_iff] at ends
      obtain ⟨⟨verdict, last⟩, turned, same⟩ := ends
      obtain ⟨n, _, further, _, rfl⟩ := (Machine.turn_eq_some_iff _ _ _ _ _).mp turned
      cases verdict with
      | error error => cases same
      | ok value =>
        cases same
        exact (runs functions n further).results _ among

/-- Two functions fail, and a line stores the sum of what they return. -/
def failedPack : Pack where
  functions :=
    [(⟨"minecraft", "both", .refl true, .refl true⟩, { lines := [.obj [
        ("modifiers", .arr [.arr [.str "StoreResult", .str "x", .str "y"]]),
        ("run", .arr [.str "Function", .str "#pair"])]] }),
     (⟨"minecraft", "first", .refl true, .refl true⟩,
      { lines := [.obj [("run", .arr [.str "Fail", .str "no"])]] }),
     (⟨"minecraft", "second", .refl true, .refl true⟩,
      { lines := [.obj [("run", .arr [.str "Fail", .str "no"])]] })]
  tags := [(⟨"minecraft", "pair", .refl true, .refl true⟩,
    [⟨"minecraft", "first", .refl true, .refl true⟩,
      ⟨"minecraft", "second", .refl true, .refl true⟩])]

def failedRequest : RunRequest := { target := "both" }

def failedStart : Machine packWords :=
  failedRequest.opening ((failedRequest.functions failedPack).toOption.getD []) {}

theorem failures_carry_zero_both :
    (∃ receiver outcome, (receiver, outcome) ∈
        (failedStart.after (packRules failedPack) 10).turnHeard (packRules failedPack) ∧
      outcome.success = false ∧ outcome.value = 0) ∧
    ∃ report final, runTarget failedPack 20 failedRequest {} = some (.ok report, final) ∧
      report.results.length = 1 ∧
      ∀ function outcome, (function, outcome) ∈ report.results →
        outcome.success = false → outcome.value = 0 := by
  obtain ⟨turns, reports⟩ := failures_carry_zero failedPack failedRequest {}
  refine ⟨?_, _, _, rfl, rfl, reports 20 _ _ rfl⟩
  have runs : failedStart.Runs (packRules failedPack) 10 := by
    iterate 10 refine (Machine.runs_succ_iff _ _ _).mpr ⟨rfl, ?_⟩
    exact Machine.runs_zero _ _
  have heard : (.host (.score .result "x" "y"), Outcome.failure) ∈
      (failedStart.after (packRules failedPack) 10).turnHeard (packRules failedPack) := .head _
  exact ⟨_, _, heard, rfl, ((turns _ 10 runs).2.2.1 _ _ heard rfl).1⟩

end PackEngine
