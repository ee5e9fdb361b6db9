import PackEngine.Proofs.Reports

/-! How runs of a target begin: with one call for each function that the target names, each in a
root frame of its own, in the target's order. -/
namespace PackEngine

def RunRequest.functions (pack : Pack) (request : RunRequest) :
    Except CommandError (List (BoundFunction packWords)) := do
  let functions ← pack.library.resolve request.target
  FunctionRef.instantiateAll request.arguments functions

def RunRequest.seeds (request : RunRequest) (functions : List (BoundFunction packWords))
    (w : World) : Machine packWords :=
  let m : Machine packWords := Machine.start request.limits ⟨{}, w⟩
  let m := if request.traced then { m with tracer := some .given } else m
  seedAll request.source functions m

def RunRequest.opening (request : RunRequest) (functions : List (BoundFunction packWords))
    (w : World) : Machine packWords := (request.seeds functions w).opened

def seedEntries (source : PackSource) : Nat → SlotId → List (BoundFunction packWords) →
    List (Entry packWords)
  | _, _, [] => []
  | seed, slot, function :: rest =>
      ⟨Frame.root seed Callback.empty slot,
        .call function [.host (.finished function.id)] false source⟩ ::
        seedEntries source (seed + 1) (slot + 1) rest

theorem seedAll_seeded {fits : Task packWords → Prop} (source : PackSource)
    {functions : List (BoundFunction packWords)}
    (fit : ∀ function ∈ functions,
      fits (.call function [.host (.finished function.id)] false source))
    {m : Machine packWords} (before : Machine.Seeded fits m) :
    Machine.Seeded fits (seedAll source functions m) := by
  induction functions generalizing m with
  | nil => exact before
  | cons function rest ih =>
    exact ih (fun other member => fit other (List.mem_cons_of_mem function member))
      (before.seed _ (fit function List.mem_cons_self))

theorem seedAll_pending (source : PackSource) (functions : List (BoundFunction packWords))
    {m : Machine packWords} (fine : (seedAll source functions m).overflowed = false) :
    m.overflowed = false ∧ (seedAll source functions m).stack = m.stack ∧
      (seedAll source functions m).pending.entries =
        (seedEntries source m.nextSeed m.heap.slots.size functions).reverse ++
          m.pending.entries := by
  induction functions generalizing m with
  | nil => exact ⟨fine, rfl, rfl⟩
  | cons function rest ih =>
    obtain ⟨seeded, stack, pending⟩ :=
      ih (m := m.seedCall function source [.host (.finished function.id)]) fine
    have size : (m.seedCall function source
        [.host (.finished function.id)]).heap.slots.size = m.heap.slots.size + 1 ∧
        (m.seedCall function source [.host (.finished function.id)]).nextSeed =
          m.nextSeed + 1 := by
      unfold Machine.seedCall Machine.seed
      rw [Machine.enqueue_toScene, Machine.enqueue_nextSeed]
      exact ⟨Array.size_push _, rfl⟩
    have one : m.overflowed = false ∧
        (m.seedCall function source [.host (.finished function.id)]).stack = m.stack ∧
        (m.seedCall function source [.host (.finished function.id)]).pending.entries =
          ⟨Frame.root m.nextSeed Callback.empty m.heap.slots.size,
            .call function [.host (.finished function.id)] false source⟩ ::
            m.pending.entries := by
      revert seeded
      unfold Machine.seedCall Machine.seed Machine.enqueue
      dsimp only
      split
      · next full =>
        intro fine
        cases fine.symm.trans full
      · next fine =>
        split
        · intro full
          cases full
        · exact fun _ => ⟨Bool.eq_false_iff.mpr fine, rfl, rfl⟩
    refine ⟨one.1, stack.trans one.2.1, ?_⟩
    rw [size.1, size.2, one.2.2] at pending
    refine pending.trans ?_
    simp [seedEntries]

theorem seedAll_keeps (source : PackSource) (functions : List (BoundFunction packWords))
    (m : Machine packWords) :
    (seedAll source functions m).toScene = { m.toScene with heap := { m.heap with
        slots := m.heap.slots ++ Array.replicate functions.length none } } ∧
      (seedAll source functions m).tracer = m.tracer ∧
      (seedAll source functions m).quota = m.quota ∧
      (seedAll source functions m).limits = m.limits := by
  induction functions generalizing m with
  | nil => simp [seedAll]
  | cons function rest ih =>
    have one : (m.seedCall function source [.host (.finished function.id)]).toScene =
          { m.toScene with heap := { m.heap with slots := m.heap.slots.push none } } ∧
        (m.seedCall function source [.host (.finished function.id)]).tracer = m.tracer ∧
        (m.seedCall function source [.host (.finished function.id)]).quota = m.quota ∧
        (m.seedCall function source [.host (.finished function.id)]).limits = m.limits := by
      unfold Machine.seedCall Machine.seed
      rw [Machine.enqueue_toScene, Machine.enqueue_tracer, Machine.enqueue_quota,
        Machine.enqueue_limits]
      exact ⟨rfl, rfl, rfl, rfl⟩
    obtain ⟨scene, tracer, quota, limits⟩ := one
    obtain ⟨scenes, tracers, quotas, limit⟩ :=
      ih (m.seedCall function source [.host (.finished function.id)])
    refine ⟨scenes.trans ?_, tracers.trans tracer, quotas.trans quota, limit.trans limits⟩
    have slots : m.heap.slots.push none ++ Array.replicate rest.length none =
        m.heap.slots ++ Array.replicate (function :: rest).length none := by
      rw [List.length_cons, Array.replicate_succ', ← Array.append_assoc, Array.push_eq_append]
    rw [scene, ← slots]

namespace RunRequest

variable (request : RunRequest) (functions : List (BoundFunction packWords)) (w : World)

theorem seeds_seeded {fits : Task packWords → Prop}
    (fit : ∀ function ∈ functions,
      fits (.call function [.host (.finished function.id)] false request.source)) :
    Machine.Seeded fits (request.seeds functions w) := by
  refine seedAll_seeded _ fit ?_
  have started : Machine.Seeded fits (Machine.start (V := packWords) request.limits ⟨{}, w⟩) :=
    .start _ _
  cases request.traced with
  | false => exact started
  | true => exact started.meanwhile _ (some TracerId.given) (Nat.le_refl _)

theorem opening_reached (pack : Pack) :
    Machine.Reached (packRules pack) PackTask (request.opening functions w) :=
  .opened (request.seeds_seeded functions w fun function _ => .call function _ false _)

theorem opening_start :
    (request.opening functions w).toScene =
        ⟨{ slots := Array.replicate functions.length none }, w⟩ ∧
      (request.opening functions w).tracer =
        (if request.traced then some TracerId.given else none) ∧
      (request.opening functions w).quota = request.limits.commands ∧
      (request.opening functions w).limits = request.limits := by
  have opens : (request.opening functions w).toScene = (request.seeds functions w).toScene ∧
      (request.opening functions w).tracer = (request.seeds functions w).tracer ∧
      (request.opening functions w).quota = (request.seeds functions w).quota ∧
      (request.opening functions w).limits = (request.seeds functions w).limits :=
    ⟨rfl, rfl, rfl, rfl⟩
  unfold seeds at opens
  dsimp only at opens
  obtain ⟨scene, tracer, quota, limits⟩ := opens
  have kept (m : Machine packWords) := seedAll_keeps request.source functions m
  rw [scene, tracer, quota, limits, (kept _).1, (kept _).2.1, (kept _).2.2.1, (kept _).2.2.2]
  cases request.traced with
  | false => simp [Machine.start]
  | true => simp [Machine.start]

theorem opening_entries (fine : (request.opening functions w).overflowed = false) :
    (request.opening functions w).stack.entries =
      seedEntries request.source 0 0 functions := by
  obtain ⟨_, stack, pending⟩ := seedAll_pending request.source functions fine
  have staged : (request.opening functions w).stack.entries =
      (request.seeds functions w).pending.entries.reverse ++
        (request.seeds functions w).stack.entries := rfl
  unfold seeds at staged
  rw [staged, stack, pending, List.reverse_append, List.reverse_reverse]
  cases request.traced <;> exact List.append_nil _

theorem opening_calls {entry : Entry packWords}
    (member : entry ∈ (request.opening functions w).stack.entries) :
    ∃ function ∈ functions, ∃ seed slot, entry = ⟨Frame.root seed Callback.empty slot,
      .call function [.host (.finished function.id)] false request.source⟩ := by
  have seeded (m : Machine packWords) (all : List (BoundFunction packWords))
      (member : entry ∈ (seedAll request.source all m).pending.entries) :
      entry ∈ m.pending.entries ∨ ∃ function ∈ all, ∃ seed slot,
        entry = ⟨Frame.root seed Callback.empty slot,
          .call function [.host (.finished function.id)] false request.source⟩ := by
    induction all generalizing m with
    | nil => exact .inl member
    | cons function rest ih =>
      obtain before | ⟨other, among, seed, slot, same⟩ := ih _ member
      · obtain kept | queued :=
          @Operation.mem_pending packWords (packRules {}) (.queue _) _ _ before
        · exact .inl kept
        · cases queued
          exact .inr ⟨function, List.mem_cons_self, _, _, rfl⟩
      · exact .inr ⟨other, List.mem_cons_of_mem function among, seed, slot, same⟩
  have idle : Machine.Seeded (fun _ => True) (request.seeds functions w) :=
    request.seeds_seeded functions w fun _ _ => trivial
  cases List.mem_append.mp member with
  | inr member =>
    change entry ∈ (request.seeds functions w).stack.entries at member
    rw [idle.seeds.stack] at member
    cases member
  | inl member =>
    obtain before | called := seeded _ functions (List.mem_reverse.mp member)
    · cases traced : request.traced <;> simp [traced, Machine.start, Stack.empty] at before
    · exact called

theorem runTarget_eq (pack : Pack) (turns : Nat) :
    runTarget pack turns request w =
      match request.functions pack with
      | .error error => some (.error (.command error), w)
      | .ok functions =>
          (Machine.turn (packRules pack) turns (request.opening functions w)).map
            fun (verdict, m) =>
              match verdict with
              | .ok () => (.ok ⟨Journal.results (m.setting.effectsSince w.journal.size),
                  m.executed⟩, m.setting)
              | .error error => (.error (.engine error), m.setting) := by
  unfold runTarget
  change (match request.functions pack with
    | .error error => _
    | .ok functions => _) = _
  cases request.functions pack with
  | error error => rfl
  | ok functions =>
    have seeded : Machine.Seeded (fun _ => True) (request.seeds functions w) :=
      request.seeds_seeded functions w fun _ _ => trivial
    unfold seeds at seeded
    dsimp only
    unfold Machine.run
    rw [if_pos seeded.phase]
    rfl

theorem runTarget_ok {pack : Pack} {turns : Nat} {request : RunRequest} {w final : World}
    {report : RunReport} (ends : runTarget pack turns request w = some (.ok report, final)) :
    ∃ functions, request.functions pack = .ok functions ∧
      (request.opening functions w).Unlimited (packRules pack) ∧
      ∀ n m, (request.opening functions w).Runs (packRules pack) n →
        (request.opening functions w).after (packRules pack) n = m → m.stack.entries = [] →
        report = ⟨Journal.results (m.setting.effectsSince w.journal.size), m.executed⟩ ∧
          final = m.setting := by
  rw [runTarget_eq] at ends
  cases found : request.functions pack with
  | error error =>
    rw [found] at ends
    cases ends
  | ok functions =>
    rw [found, Option.map_eq_some_iff] at ends
    obtain ⟨⟨verdict, machine⟩, turned, same⟩ := ends
    cases verdict with
    | error error => cases same
    | ok value =>
      refine ⟨functions, rfl, Machine.unlimited_of_turn turned, ?_⟩
      rintro n _ runs rfl empty
      obtain ⟨last, _, further, ended, rfl⟩ := (Machine.turn_eq_some_iff _ _ _ _ _).mp turned
      cases runs.unique (Machine.verdict?_ne_none empty) further (by simp [ended])
      cases same
      exact ⟨rfl, rfl⟩

end RunRequest

end PackEngine
