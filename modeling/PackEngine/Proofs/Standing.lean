import PackEngine.Proofs.Errands

/-! The standing of personas: their permission, and whether they are silent. Redirects leave it as
it is, each way into a function lowers it, and who is silent gives no feedback. -/
namespace PackEngine

structure Persona.Under (p q : Persona) : Prop where
  permission : p.permission ≤ q.permission
  silent : q.silent = true → p.silent = true

namespace Persona.Under

theorem refl (p : Persona) : p.Under p := ⟨Nat.le_refl _, id⟩

theorem trans {p q r : Persona} (first : p.Under q) (later : q.Under r) : p.Under r :=
  ⟨Nat.le_trans first.permission later.permission, first.silent ∘ later.silent⟩

end Persona.Under

def Way.restrict : Way → Persona → Persona
  | .called, p => p.forFunction
  | .asked, p => p.forFunction
  | .traced, p => p.withMaximumPermission Persona.functionPermission

namespace Way

theorem restrict_permission (way : Way) (p : Persona) :
    (way.restrict p).permission = min p.permission Persona.functionPermission := by
  cases way <;> rfl

theorem restrict_under (way : Way) (p : Persona) : (way.restrict p).Under p := by
  refine ⟨?_, fun silent => ?_⟩
  · rw [restrict_permission]
    exact Nat.min_le_left _ _
  · cases way with
    | called => rfl
    | asked => rfl
    | traced => exact silent

theorem restrict_mono (way : Way) {p q : Persona} (under : p.Under q) :
    (way.restrict p).Under (way.restrict q) := by
  refine ⟨?_, fun silent => ?_⟩
  · rw [restrict_permission, restrict_permission]
    exact Nat.le_min.mpr
      ⟨Nat.le_trans (Nat.min_le_left _ _) under.permission, Nat.min_le_right _ _⟩
  · cases way with
    | called => rfl
    | asked => rfl
    | traced => exact under.silent silent

end Way

/-- One of the ways into functions is one on which personas are silenced. -/
def Silencing (ways : List Way) : Prop := .called ∈ ways ∨ .asked ∈ ways

namespace Persona

def ceiling (p : Persona) (ways : List Way) : Persona := ways.foldl (fun q way => way.restrict q) p

variable (p : Persona) {ways : List Way}

theorem ceiling_append (first later : List Way) :
    p.ceiling (first ++ later) = (p.ceiling first).ceiling later := List.foldl_append

theorem ceiling_under (ways : List Way) : (p.ceiling ways).Under p := by
  induction ways generalizing p with
  | nil => exact .refl p
  | cons way rest ih => exact (ih (way.restrict p)).trans (way.restrict_under p)

/-- A way restricts no less if others lie before and behind it. -/
theorem ceiling_under_of_mem {way : Way} (among : way ∈ ways) :
    (p.ceiling ways).Under (way.restrict p) := by
  induction ways generalizing p with
  | nil => cases among
  | cons first rest ih =>
    cases among with
    | head => exact ceiling_under (way.restrict p) rest
    | tail _ among =>
      have later := ih (first.restrict p) among
      exact later.trans (way.restrict_mono (first.restrict_under p))

theorem ceiling_permission (entered : ways ≠ []) :
    (p.ceiling ways).permission ≤ min functionPermission p.permission := by
  obtain ⟨way, among⟩ := List.exists_mem_of_ne_nil ways entered
  rw [Nat.min_comm, ← way.restrict_permission p]
  exact (p.ceiling_under_of_mem among).permission

theorem ceiling_silent (silencing : Silencing ways) : (p.ceiling ways).silent = true := by
  obtain among | among := silencing
  · exact (p.ceiling_under_of_mem among).silent rfl
  · exact (p.ceiling_under_of_mem among).silent rfl

theorem under_redirectsKeep (pack : Pack) (q : Persona) :
    (packRules pack).RedirectsKeep fun source => source.persona.Under q := by
  intro redirect source w produced under made other member
  cases Except.ok.inj made
  have same {outputs : PackSource} (kept : outputs = source) : outputs.persona.Under q :=
    kept ▸ under
  cases redirect with
  | entities targets =>
    obtain ⟨target, _, rfl⟩ := List.mem_map.mp member
    exact ⟨under.permission, under.silent⟩
  | position position =>
    rw [List.mem_singleton.mp member]
    exact ⟨under.permission, under.silent⟩
  | dimension dimension =>
    rw [List.mem_singleton.mp member]
    exact ⟨under.permission, under.silent⟩
  | scoreWithin holder objective low high =>
    simp only [Redirect.produce] at member
    split at member
    · split at member
      · exact same (List.mem_singleton.mp member)
      · cases member
    · cases member
  | store stored holder objective =>
    rw [List.mem_singleton.mp member]
    exact under

end Persona

/-! What is shown of what happens. -/

def Effect.Shows : Effect → Prop
  | .printed _ _ => True
  | .sent _ _ => True
  | .traced _ (.message _) => True
  | _ => False

def Persona.noted (p : Persona) (text : String) : Effect :=
  match p.output with
  | .console => .printed p.displayName text
  | .sink name => .sent name text
  | .trace index => .traced (.opened index) (.message text)

def Persona.notedResult (p : Persona) (function : FunctionId) (value : Int32) : Effect :=
  p.noted ("Function " ++ function.render ++ " returned " ++ toString value.toInt)

def World.Notes (P : Effect → Prop) (before after : World) : Prop :=
  ∃ effects, after.journal.toList = before.journal.toList ++ effects ∧
    ∀ effect ∈ effects, effect.Shows → P effect

namespace World

variable {P : Effect → Prop}

theorem Notes.refl (w : World) : Notes P w w :=
  ⟨[], (List.append_nil _).symm, fun _ member => absurd member List.not_mem_nil⟩

theorem Notes.trans {first second third : World} (before : Notes P first second)
    (after : Notes P second third) : Notes P first third := by
  obtain ⟨shown, added, fits⟩ := before
  obtain ⟨more, addedToo, fitsToo⟩ := after
  refine ⟨shown ++ more, ?_, fun effect member => ?_⟩
  · rw [addedToo, added, List.append_assoc]
  · exact (List.mem_append.mp member).elim (fits effect) (fitsToo effect)

theorem Notes.mono {Q : Effect → Prop} {before after : World} (notes : Notes P before after)
    (wider : ∀ effect, P effect → Q effect) : Notes Q before after := by
  obtain ⟨effects, added, fits⟩ := notes
  exact ⟨effects, added, fun effect member shows => wider effect (fits effect member shows)⟩

theorem notes_add {effect : Effect} (fits : effect.Shows → P effect) (w : World) :
    Notes P w (w.add effect) := by
  refine ⟨[effect], ?_, fun other member => ?_⟩
  · rw [journal_add, Array.toList_push]
  · rw [List.mem_singleton.mp member]
    exact fits

theorem notes_setScore (w : World) (holder objective : String) (value : Int32) :
    Notes P w (w.setScore holder objective value) := notes_add False.elim w

end World

namespace Persona

variable {p : Persona} {P : Effect → Prop}

theorem sendSuccess_silent (silent : p.silent = true) (text : String) (w : World) :
    p.sendSuccess text w = w := if_pos silent

theorem sendFailure_silent (silent : p.silent = true) (text : String) (w : World) :
    p.sendFailure text w = w := if_pos silent

theorem handleError_silent (silent : p.silent = true) (error : CommandError) (forked : Bool)
    (w : World) : p.handleError error forked w =
      w.add (.reported p.displayName error.message forked) := by
  unfold handleError
  rw [sendFailure_silent silent, ite_self]

theorem emit_eq_add (p : Persona) (text : String) (w : World) :
    p.emit text w = w.add (p.noted text) := by
  unfold emit noted
  cases p.output <;> rfl

theorem notes_announceResult (function : FunctionId) (outcome : Outcome) (w : World)
    (fits : P (p.notedResult function outcome.value)) :
    World.Notes P w (p.announceResult function.render outcome w) := by
  unfold announceResult sendSuccess
  split
  · split
    · exact .refl w
    · rw [emit_eq_add]
      exact World.notes_add (fun _ => fits) w
  · exact .refl w

end Persona

theorem LeafAction.notes_perform {source : PackSource} (silent : source.persona.silent = true)
    (leaf : LeafAction) (w : World) :
    World.Notes (fun effect => ∃ message, leaf = .say message ∧
      effect = .printed source.persona.displayName message) w (leaf.perform source w).2 := by
  cases leaf with
  | say message => exact World.notes_add (fun _ => ⟨message, rfl, rfl⟩) w
  | value n => exact .refl w
  | fail message => exact .refl w
  | add holder objective amount =>
    simp only [perform, World.addScore, Persona.sendSuccess_silent silent]
    exact World.notes_setScore w _ _ _
  | get holder objective =>
    simp only [perform, Persona.sendSuccess_silent silent]
    split <;> exact .refl w

end PackEngine
