import PackEngine.Proofs.Leaves
import PackEngine.Proofs.Stores

/-! Journeys along a line. A source changes from modifier to modifier, and at each store modifier
the holder is fixed whose score will be written. What the line began with hears the leaf's result
before any of these writes. -/
namespace PackEngine

structure Write where
  stored : Stored
  holder : String
  objective : String
deriving DecidableEq, Repr

namespace Write

def receiver (write : Write) : Receiver packWords :=
  .host (.score write.stored write.holder write.objective)

def value (write : Write) (outcome : Outcome) : Int32 :=
  match write.stored with
  | .result => outcome.value
  | .success => if outcome.success then 1 else 0

def perform (outcome : Outcome) (w : World) (write : Write) : World :=
  w.setScore write.holder write.objective (write.value outcome)

end Write

inductive LineModifier.Leads : LineModifier → Persona → Persona → List Write → Prop where
  | entity {targets : List String} {target : String} (member : target ∈ targets) (p : Persona) :
      Leads (.redirect (.entities targets)) p (p.withEntity target) []
  | position (position : Position) (p : Persona) :
      Leads (.redirect (.position position)) p (p.withPosition position) []
  | dimension (dimension : String) (p : Persona) :
      Leads (.redirect (.dimension dimension)) p (p.withDimension dimension) []
  | score (holder objective : String) (low high : Option Int32) (p : Persona) :
      Leads (.redirect (.scoreWithin holder objective low high)) p p []
  | store (stored : Stored) (holder objective : String) (p : Persona) :
      Leads (.redirect (.store stored holder objective)) p p
        [⟨stored, p.holder holder, objective⟩]
  | condition (condition : Condition) (p : Persona) : Leads (.condition condition) p p []

/-- The persona that `start` has become behind the modifiers, and all that is to be written for it,
in the order of the store modifiers. -/
inductive Journey (start : Persona) : List LineModifier → Persona → List Write → Prop where
  | start : Journey start [] start []
  | pass {passed : List LineModifier} {modifier : LineModifier} {p q : Persona}
      {writes own : List Write} (before : Journey start passed p writes)
      (leads : modifier.Leads p q own) : Journey start (passed ++ [modifier]) q (writes ++ own)

def LineModifier.store? : LineModifier → Option (Stored × String)
  | .redirect (.store stored _ objective) => some (stored, objective)
  | _ => none

theorem Journey.stores {start p : Persona} {modifiers : List LineModifier} {writes : List Write}
    (h : Journey start modifiers p writes) :
    writes.map (fun write => (write.stored, write.objective)) =
      modifiers.filterMap LineModifier.store? := by
  induction h with
  | start => rfl
  | pass before leads ih =>
    rw [List.map_append, List.filterMap_append, ih]
    cases leads <;> rfl

/-- A source that `start` has become on its line. Its callback is that of `start`, and then the
writes. -/
def PackSource.Follows (start : PackSource) (passed : List LineModifier) (source : PackSource) :
    Prop :=
  ∃ writes, Journey start.persona passed source.persona writes ∧
    source.callback = start.callback ++ writes.map Write.receiver

theorem PackSource.Follows.pass {start source output : PackSource} {passed : List LineModifier}
    {modifier : LineModifier} {own : List Write} (h : start.Follows passed source)
    (leads : modifier.Leads source.persona output.persona own)
    (callback : output.callback = source.callback ++ own.map Write.receiver) :
    start.Follows (passed ++ [modifier]) output := by
  obtain ⟨writes, journey, same⟩ := h
  refine ⟨writes ++ own, journey.pass leads, ?_⟩
  rw [callback, same, List.map_append, List.append_assoc]

namespace LineModifier

theorem stage_action (modifier : LineModifier) :
    modifier.stage.action =
      match modifier with
      | .redirect r => .redirect r
      | .condition c => .gate c := by
  rcases modifier with ⟨⟨⟩⟩ | ⟨⟩ <;> rfl

theorem stage_injective : Function.Injective stage := by
  intro m n same
  have actions := congrArg Modifier.action same
  rw [stage_action, stage_action] at actions
  cases m <;> cases n <;> cases actions <;> rfl

theorem follows_produce {start source output : PackSource} {passed : List LineModifier}
    {redirect : Redirect} (h : start.Follows passed source) {w : World}
    (member : output ∈ redirect.produce source w) :
    start.Follows (passed ++ [.redirect redirect]) output := by
  have same (leads : (LineModifier.redirect redirect).Leads source.persona source.persona []) :
      start.Follows (passed ++ [.redirect redirect]) source := h.pass leads (List.append_nil _).symm
  unfold Redirect.produce at member
  cases redirect with
  | entities targets =>
    obtain ⟨target, among, rfl⟩ := List.mem_map.mp member
    exact h.pass (.entity among _) (List.append_nil _).symm
  | position position =>
    rw [List.mem_singleton.mp member]
    exact h.pass (.position position _) (List.append_nil _).symm
  | dimension dimension =>
    rw [List.mem_singleton.mp member]
    exact h.pass (.dimension dimension _) (List.append_nil _).symm
  | scoreWithin holder objective low high =>
    simp only at member
    split at member
    · split at member
      · rw [List.mem_singleton.mp member]
        exact same (.score holder objective low high _)
      · cases member
    · cases member
  | store stored holder objective =>
    rw [List.mem_singleton.mp member]
    exact h.pass (.store stored holder objective _) rfl

end LineModifier

def PackSource.Passes (start : PackSource) (passed : List (Modifier packWords))
    (source : PackSource) : Prop :=
  ∃ modifiers, passed = modifiers.map LineModifier.stage ∧ start.Follows modifiers source

namespace PackSource

variable {start source : PackSource}

theorem Passes.gate {passed : List (Modifier packWords)} (h : start.Passes passed source)
    (condition : Condition) :
    start.Passes (passed ++ [(LineModifier.condition condition).stage]) source := by
  obtain ⟨modifiers, rfl, follows⟩ := h
  refine ⟨modifiers ++ [.condition condition], by simp, ?_⟩
  exact follows.pass (.condition condition _) (List.append_nil _).symm

theorem Passes.follows {modifiers : List LineModifier}
    (h : start.Passes (modifiers.map LineModifier.stage) source) :
    start.Follows modifiers source := by
  obtain ⟨others, same, follows⟩ := h
  rwa [List.map_injective_iff.mpr LineModifier.stage_injective same]

theorem Passes.produce {pack : Pack} {passed : List (Modifier packWords)}
    (h : start.Passes passed source) {modifier : LineModifier}
    {produce : PackSource → World → Except CommandError (List PackSource)}
    (produces : modifier.stage.produce? (packRules pack) = some produce) {w : World}
    {outputs : List PackSource} (made : produce source w = .ok outputs) {output : PackSource}
    (member : output ∈ outputs) : start.Passes (passed ++ [modifier.stage]) output := by
  obtain ⟨modifiers, rfl, follows⟩ := h
  unfold Modifier.produce? at produces
  rw [modifier.stage_action] at produces
  cases modifier with
  | condition condition => cases produces
  | redirect redirect =>
    cases produces
    cases made
    exact ⟨modifiers ++ [.redirect redirect], by simp, LineModifier.follows_produce follows member⟩

end PackSource

/-! What sources and tracers are told changes no score. -/

structure World.Tells (before after : World) : Prop where
  scores : after.scores = before.scores
  journal : before.journal.toList <+: after.journal.toList

namespace World

theorem tells_refl (w : World) : w.Tells w := ⟨rfl, List.prefix_refl _⟩

theorem Tells.trans {first second third : World} (h : first.Tells second)
    (later : second.Tells third) : first.Tells third :=
  ⟨later.scores.trans h.scores, h.journal.trans later.journal⟩

theorem tells_add {effect : Effect}
    (silent : ∀ holder objective value, effect ≠ .scored holder objective value) (w : World) :
    w.Tells (w.add effect) := by
  have longer : w.journal.toList <+: (w.journal.push effect).toList := by
    rw [Array.toList_push]
    exact List.prefix_append _ _
  cases effect with
  | scored holder objective value => exact absurd rfl (silent holder objective value)
  | _ => exact ⟨rfl, longer⟩

end World

namespace Persona

theorem tells_emit (p : Persona) (text : String) (w : World) : w.Tells (p.emit text w) := by
  unfold emit
  split <;> exact World.tells_add (by simp) w

theorem tells_handleError (p : Persona) (error : CommandError) (forked : Bool) (w : World) :
    w.Tells (p.handleError error forked w) := by
  have shown : w.Tells (if forked then w else p.sendFailure error.message w) := by
    unfold sendFailure
    split
    · exact w.tells_refl
    · split
      · exact w.tells_refl
      · exact p.tells_emit _ w
  have reported : ∀ holder objective value,
      Effect.reported p.displayName error.message forked ≠ .scored holder objective value := by simp
  exact shown.trans (World.tells_add reported _)

end Persona

def LeafAction.scored (source : PackSource) (w : World) : LeafAction → Scores
  | .add holder objective amount =>
      let whose := source.persona.holder holder
      w.scores.set whose objective ((w.score whose objective).getD 0 + amount)
  | _ => w.scores

namespace Machine

variable {pack : Pack} {frame : Frame packWords}

theorem tells_trace (pack : Pack) (event : TraceEvent) (m : Machine packWords) :
    m.setting.Tells (m.trace (packRules pack) event).setting := by
  have traced (tracer : TracerId) : ∀ holder objective value,
      Effect.traced tracer (.event event) ≠ .scored holder objective value := by simp
  unfold trace
  split
  · exact m.setting.tells_refl
  · next tracer _ => exact World.tells_add (traced tracer) _

theorem tells_report (pack : Pack) (source : PackSource) (error : CommandError) (forked : Bool)
    (m : Machine packWords) :
    m.setting.Tells (m.report (packRules pack) source error forked).setting :=
  (tells_trace pack _ m).trans (source.persona.tells_handleError error forked _)

/-! Writes. -/

end Machine

end PackEngine
