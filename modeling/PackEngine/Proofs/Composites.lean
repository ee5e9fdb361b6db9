import PackEngine.Engine.Handler
import PackEngine.Proofs.Tallies

/-! Composed callbacks. Each leaf has its effect once for each place that it has in a composite,
from left to right. Composition is free: two composites have the same effect, whatever that of
their leaves is, exactly if the laws of a monoid turn one into the other. -/
namespace PackEngine

variable {V : Vocabulary}

/-! What a single receiver does with what it hears. -/

namespace Receiver

def listener? : Receiver V → Option V.Listener
  | .host listener => some listener
  | _ => none

def feeds (id : TallyId) : Receiver V → Bool
  | .tally other => other = id
  | _ => false

end Receiver

theorem tallied_hearing_eq (id : TallyId) (callback : Callback V) (outcome : Outcome) :
    Heap.tallied id (callback.hearing outcome) =
      List.replicate (callback.countP (Receiver.feeds id)) outcome := by
  induction callback with
  | nil => rfl
  | cons receiver rest ih =>
    have first : Heap.tallied id [(receiver, outcome)] =
        List.replicate (if receiver.feeds id then 1 else 0) outcome := by
      cases receiver with
      | tally other =>
        by_cases same : other = id <;> simp [Heap.tallied, Heap.tallyHears, Receiver.feeds, same]
      | _ => rfl
    have both : Callback.hearing (receiver :: rest) outcome =
        [(receiver, outcome)] ++ Callback.hearing rest outcome := rfl
    rw [both, Heap.tallied_append, first, ih, List.replicate_append_replicate, List.countP_cons,
      Nat.add_comm]

theorem Callback.tallies_deliver (rules : Rules V) (callback : Callback V) (outcome : Outcome)
    (scene : Scene V) (id : TallyId) :
    (callback.deliver rules outcome scene).heap.tallies[id]? =
      scene.heap.tallies[id]?.map fun tally =>
        (List.replicate (callback.countP (Receiver.feeds id)) outcome).foldl Tally.add tally := by
  cases held : scene.heap.tallies[id]? with
  | none =>
    rw [Option.map_none, Array.getElem?_eq_none_iff, callback.deliver_tallies_size rules outcome]
    exact Array.getElem?_eq_none_iff.mp held
  | some tally =>
    rw [callback.deliver_tally rules outcome held, tallied_hearing_eq, Option.map_some]

/-! Composites. -/

inductive Composite (V : Vocabulary) where
  | empty
  | recording (listener : V.Listener)
  | feeding (tally : TallyId)
  | chain (first second : Composite V)
  | andThen (first next : Composite V)

namespace Composite

def handler {σ : Type} (hear : Receiver V → Outcome → σ → σ) : Composite V → Handler σ
  | .empty => .empty
  | .recording listener => .new (hear (.host listener))
  | .feeding tally => .new (hear (.tally tally))
  | .chain first second => (first.handler hear).chain (second.handler hear)
  | .andThen first next => (first.handler hear).andThen (next.handler hear)

def callback : Composite V → Callback V
  | .empty => Callback.empty
  | .recording listener => [.host listener]
  | .feeding tally => [.tally tally]
  | .chain first second => first.callback.chain second.callback
  | .andThen first next => Callback.andThen first.callback next.callback

/-- The leaves that are not empty, one for each place that they have, from left to right. -/
def leaves : Composite V → List (Receiver V)
  | .empty => []
  | .recording listener => [.host listener]
  | .feeding tally => [.tally tally]
  | .chain first second => first.leaves ++ second.leaves
  | .andThen first next => first.leaves ++ next.leaves

def Bare : Composite V → Prop
  | .empty => True
  | .recording _ => False
  | .feeding _ => False
  | .chain first second => first.Bare ∧ second.Bare
  | .andThen first next => first.Bare ∧ next.Bare

/-- The laws of a monoid, used in any part of a composite, turn the first into the second. -/
inductive Rearranged : Composite V → Composite V → Prop where
  | refl (e : Composite V) : Rearranged e e
  | symm {e f : Composite V} (h : Rearranged e f) : Rearranged f e
  | trans {e f g : Composite V} (before : Rearranged e f) (after : Rearranged f g) :
      Rearranged e g
  | chain {e e' f f' : Composite V} (first : Rearranged e e') (second : Rearranged f f') :
      Rearranged (.chain e f) (.chain e' f')
  | next (e f : Composite V) : Rearranged (.andThen e f) (.chain e f)
  | assoc (e f g : Composite V) : Rearranged (.chain (.chain e f) g) (.chain e (.chain f g))
  | emptyFirst (e : Composite V) : Rearranged (.chain .empty e) e
  | emptySecond (e : Composite V) : Rearranged (.chain e .empty) e

theorem callback_eq_leaves (e : Composite V) : e.callback = e.leaves := by
  induction e with
  | chain first second first_ih second_ih =>
    rw [callback, leaves, first_ih, second_ih, Callback.chain]
  | andThen first next first_ih next_ih =>
    rw [callback, leaves, first_ih, next_ih, Callback.andThen, Callback.chain]
  | _ => rfl

/-! Composites as lists of leaves. -/

theorem Rearranged.leaves_eq {e f : Composite V} (h : Rearranged e f) : e.leaves = f.leaves := by
  induction h with
  | refl => rfl
  | symm _ ih => exact ih.symm
  | trans _ _ before after => exact before.trans after
  | chain _ _ first second => rw [leaves, leaves, first, second]
  | next => rfl
  | assoc => exact List.append_assoc ..
  | emptyFirst => rfl
  | emptySecond => exact List.append_nil _

def ofLeaf : Receiver V → Composite V
  | .host listener => .recording listener
  | .tally id => .feeding id
  | _ => .empty

def ofLeaves : List (Receiver V) → Composite V
  | [] => .empty
  | leaf :: rest => .chain (ofLeaf leaf) (ofLeaves rest)

theorem rearranged_ofLeaves_append (first second : List (Receiver V)) :
    Rearranged (.chain (ofLeaves first) (ofLeaves second)) (ofLeaves (first ++ second)) := by
  induction first with
  | nil => exact .emptyFirst _
  | cons leaf rest ih => exact (Rearranged.assoc _ _ _).trans (.chain (.refl _) ih)

theorem rearranged_ofLeaves (e : Composite V) : Rearranged e (ofLeaves e.leaves) := by
  induction e with
  | empty => exact .refl _
  | recording listener => exact .symm (.emptySecond _)
  | feeding tally => exact .symm (.emptySecond _)
  | chain first second first_ih second_ih =>
    exact (Rearranged.chain first_ih second_ih).trans (rearranged_ofLeaves_append _ _)
  | andThen first next first_ih next_ih =>
    exact (Rearranged.next _ _).trans
      ((Rearranged.chain first_ih next_ih).trans (rearranged_ofLeaves_append _ _))

theorem rearranged_iff_leaves (e f : Composite V) : Rearranged e f ↔ e.leaves = f.leaves := by
  refine ⟨Rearranged.leaves_eq, fun same => ?_⟩
  have form := f.rearranged_ofLeaves
  rw [← same] at form
  exact e.rearranged_ofLeaves.trans form.symm

/-! Composites as handlers. -/

section

variable {σ : Type} (hear : Receiver V → Outcome → σ → σ)

theorem onResult_handler (e : Composite V) (outcome : Outcome) (s : σ) :
    (e.handler hear).onResult outcome s =
      e.leaves.foldl (fun s leaf => hear leaf outcome s) s := by
  induction e generalizing s with
  | chain first second first_ih second_ih =>
    rw [handler, leaves, Handler.onResult_chain, List.foldl_append, first_ih, second_ih]
  | andThen first next first_ih next_ih =>
    rw [handler, leaves, Handler.andThen, Handler.onResult_chain, List.foldl_append, first_ih,
      next_ih]
  | _ => rfl

theorem isEmpty_handler (e : Composite V) : (e.handler hear).isEmpty = true ↔ e.Bare := by
  induction e with
  | chain first second first_ih second_ih =>
    rw [handler, Bare, Handler.isEmpty_chain, Bool.and_eq_true, first_ih, second_ih]
  | andThen first next first_ih next_ih =>
    rw [handler, Bare, Handler.andThen, Handler.isEmpty_chain, Bool.and_eq_true, first_ih, next_ih]
  | _ => simp [handler, Bare, Handler.isEmpty, Handler.empty, Handler.new]

theorem Rearranged.handler_eq {e f : Composite V} (h : Rearranged e f) :
    e.handler hear = f.handler hear := by
  induction h with
  | refl => rfl
  | symm _ ih => exact ih.symm
  | trans _ _ before after => exact before.trans after
  | chain _ _ first second => rw [handler, handler, first, second]
  | next => rfl
  | assoc => exact Handler.chain_assoc ..
  | emptyFirst => exact Handler.empty_chain _
  | emptySecond => exact Handler.chain_empty _

end

def note (leaf : Receiver V) (outcome : Outcome) (log : List (Receiver V × Outcome)) :
    List (Receiver V × Outcome) :=
  log ++ [(leaf, outcome)]

theorem onResult_note (e : Composite V) (outcome : Outcome) (log : List (Receiver V × Outcome)) :
    (e.handler note).onResult outcome log = log ++ e.leaves.map fun leaf => (leaf, outcome) := by
  rw [onResult_handler]
  induction e.leaves generalizing log with
  | nil => simp
  | cons leaf rest ih =>
    rw [List.foldl_cons, ih, note, List.append_assoc]
    rfl

/-- What is written down tells composites apart. -/
theorem rearranged_iff_handler (e f : Composite V) : Rearranged e f ↔
    ∀ (σ : Type) (hear : Receiver V → Outcome → σ → σ), e.handler hear = f.handler hear := by
  refine ⟨fun h σ hear => h.handler_eq hear, fun same => e.rearranged_iff_leaves f |>.mpr ?_⟩
  have logs := congrArg (fun handler => handler.onResult Outcome.failure []) (same _ note)
  simp only [onResult_note, List.nil_append] at logs
  exact List.map_injective_iff.mpr (fun _ _ pairs => (Prod.mk.inj pairs).1) logs

/-! Composites as lists of receivers, in a scene. -/

theorem handler_callback (rules : Rules V) (e : Composite V) :
    e.callback.handler rules =
      e.handler fun leaf outcome scene => leaf.hear rules outcome scene := by
  induction e with
  | chain first second first_ih second_ih =>
    rw [callback, handler, Callback.handler_chain, first_ih, second_ih]
  | andThen first next first_ih next_ih =>
    rw [callback, handler, Callback.andThen, Callback.handler_chain, first_ih, next_ih]
    rfl
  | _ => rfl

theorem setting_deliver (rules : Rules V) (e : Composite V) (outcome : Outcome)
    (scene : Scene V) :
    (e.callback.deliver rules outcome scene).setting =
      (e.leaves.filterMap Receiver.listener?).foldl
        (fun setting listener => rules.hear listener outcome setting) scene.setting := by
  induction e generalizing scene with
  | chain first second first_ih second_ih =>
    rw [callback, leaves, Callback.deliver_chain, List.filterMap_append, List.foldl_append,
      second_ih, first_ih]
  | andThen first next first_ih next_ih =>
    rw [callback, leaves, Callback.andThen, Callback.deliver_chain, List.filterMap_append,
      List.foldl_append, next_ih, first_ih]
  | _ => rfl

theorem heap_deliver (rules : Rules V) (e : Composite V) (outcome : Outcome) (scene : Scene V) :
    (e.callback.deliver rules outcome scene).heap.slots = scene.heap.slots ∧
      (e.callback.deliver rules outcome scene).heap.cells = scene.heap.cells := by
  induction e generalizing scene with
  | chain first second first_ih second_ih =>
    rw [callback, Callback.deliver_chain]
    exact ⟨(second_ih _).1.trans (first_ih _).1, (second_ih _).2.trans (first_ih _).2⟩
  | andThen first next first_ih next_ih =>
    rw [callback, Callback.andThen, Callback.deliver_chain]
    exact ⟨(next_ih _).1.trans (first_ih _).1, (next_ih _).2.trans (first_ih _).2⟩
  | _ => exact ⟨rfl, rfl⟩

end Composite

/-! Callbacks that are shared. -/

inductive Making (V : Vocabulary) where
  | empty
  | recording (listener : V.Listener)
  | feeding (tally : TallyId)
  | chain (first second : Nat)
  | andThen (first next : Nat)

namespace Making

variable {α β σ : Type} (hear : Receiver V → Outcome → σ → σ)

def handler (made : List (Handler σ)) : Making V → Handler σ
  | .empty => .empty
  | .recording listener => .new (hear (.host listener))
  | .feeding tally => .new (hear (.tally tally))
  | .chain first second => (made.getD first .empty).chain (made.getD second .empty)
  | .andThen first next => (made.getD first .empty).andThen (made.getD next .empty)

def callback (made : List (Callback V)) : Making V → Callback V
  | .empty => Callback.empty
  | .recording listener => [.host listener]
  | .feeding tally => [.tally tally]
  | .chain first second =>
      Callback.chain (made.getD first Callback.empty) (made.getD second Callback.empty)
  | .andThen first next =>
      Callback.andThen (made.getD first Callback.empty) (made.getD next Callback.empty)

/-- The same as a composite, with copies of what is shared. -/
def composite (made : List (Composite V)) : Making V → Composite V
  | .empty => .empty
  | .recording listener => .recording listener
  | .feeding tally => .feeding tally
  | .chain first second => .chain (made.getD first .empty) (made.getD second .empty)
  | .andThen first next => .andThen (made.getD first .empty) (made.getD next .empty)

def all (make : List α → Making V → α) (steps : List (Making V)) : List α :=
  steps.foldl (fun made step => made ++ [make made step]) []

theorem all_eq_map {make : List α → Making V → α} {other : List β → Making V → β} (f : β → α)
    (same : ∀ made step, f (other made step) = make (made.map f) step) (steps : List (Making V)) :
    all make steps = (all other steps).map f := by
  have grown (made : List β) :
      steps.foldl (fun made step => made ++ [make made step]) (made.map f) =
        (steps.foldl (fun made step => made ++ [other made step]) made).map f := by
    induction steps generalizing made with
    | nil => rfl
    | cons step rest ih =>
      rw [List.foldl_cons, List.foldl_cons, ← ih, List.map_append, List.map_singleton, same]
  exact grown []

theorem getD_map (f : β → α) (made : List β) (n : Nat) (default : β) :
    (made.map f).getD n (f default) = f (made.getD n default) := by
  rw [List.getD_eq_getElem?_getD, List.getD_eq_getElem?_getD, List.getElem?_map]
  cases made[n]? <;> rfl

theorem handler_composite (made : List (Composite V)) (step : Making V) :
    (step.composite made).handler hear = step.handler hear (made.map (Composite.handler hear)) := by
  have known (n : Nat) : (made.map (Composite.handler hear)).getD n .empty =
      (made.getD n .empty).handler hear := getD_map _ made n .empty
  cases step with
  | chain first second => rw [composite, handler, Composite.handler, known, known]
  | andThen first next => rw [composite, handler, Composite.handler, known, known]
  | _ => rfl

theorem callback_composite (made : List (Composite V)) (step : Making V) :
    (step.composite made).callback = step.callback (made.map Composite.callback) := by
  have known (n : Nat) : (made.map Composite.callback).getD n Callback.empty =
      (made.getD n .empty).callback := getD_map _ made n .empty
  cases step with
  | chain first second => rw [composite, callback, Composite.callback, known, known]
  | andThen first next => rw [composite, callback, Composite.callback, known, known]
  | _ => rfl

end Making

/-- However callbacks are composed and shared, each leaf has its effect once for each place that it
has, from left to right, and nothing else has one. A composite is empty if all its leaves are. What
the laws of a monoid change about it, and nothing else, makes no difference. In a scene, composed
lists of receivers stand for composed handlers. -/
theorem composites_hear_once (steps : List (Making V)) :
    (∀ (σ : Type) (hear : Receiver V → Outcome → σ → σ), Making.all (Making.handler hear) steps =
      (Making.all Making.composite steps).map (Composite.handler hear)) ∧
    Making.all Making.callback steps =
      (Making.all Making.composite steps).map Composite.callback ∧
    ∀ e : Composite V,
      (∀ outcome log, (e.handler Composite.note).onResult outcome log =
        log ++ e.leaves.map fun leaf => (leaf, outcome)) ∧
      (∀ (σ : Type) (hear : Receiver V → Outcome → σ → σ),
        (∀ outcome s, (e.handler hear).onResult outcome s =
          e.leaves.foldl (fun s leaf => hear leaf outcome s) s) ∧
        ((e.handler hear).isEmpty = true ↔ e.Bare)) ∧
      (∀ f : Composite V, e.Rearranged f ↔
        ∀ (σ : Type) (hear : Receiver V → Outcome → σ → σ), e.handler hear = f.handler hear) ∧
      ∀ rules : Rules V,
        (e.callback.handler rules =
          e.handler fun leaf outcome scene => leaf.hear rules outcome scene) ∧
        (e.callback.isEmpty = true ↔ e.Bare) ∧
        ∀ (outcome : Outcome) (scene : Scene V),
          let heard := e.callback.deliver rules outcome scene
          heard = (e.callback.handler rules).onResult outcome scene ∧
          heard.setting = (e.leaves.filterMap Receiver.listener?).foldl
            (fun setting listener => rules.hear listener outcome setting) scene.setting ∧
          (∀ id, heard.heap.tallies[id]? = scene.heap.tallies[id]?.map fun tally =>
            (List.replicate (e.leaves.countP (Receiver.feeds id)) outcome).foldl Tally.add tally) ∧
          heard.heap.slots = scene.heap.slots ∧ heard.heap.cells = scene.heap.cells := by
  refine ⟨fun σ hear => Making.all_eq_map _ (Making.handler_composite hear) steps,
    Making.all_eq_map _ Making.callback_composite steps, fun e => ⟨e.onResult_note,
      fun σ hear => ⟨e.onResult_handler hear, e.isEmpty_handler hear⟩, e.rearranged_iff_handler,
      fun rules => ⟨e.handler_callback rules, ?_, fun outcome scene => ?_⟩⟩⟩
  · rw [← e.callback.isEmpty_handler rules, e.handler_callback, e.isEmpty_handler]
  · refine ⟨(e.callback.onResult_handler rules outcome scene).symm,
      e.setting_deliver rules outcome scene, fun id => ?_, e.heap_deliver rules outcome scene⟩
    rw [Callback.tallies_deliver, e.callback_eq_leaves]

/-- A callback that is shared is heard in each of its places. -/
example (a b : V.Listener) (outcome : Outcome) :
    (Making.all (Making.handler Composite.note) [.recording a, .empty, .recording b, .andThen 0 2,
      .chain 3 1, .chain 4 0] : List (Handler (List (Receiver V × Outcome)))).map
        (·.onResult outcome []) =
      [[(.host a, outcome)], [], [(.host b, outcome)], [(.host a, outcome), (.host b, outcome)],
        [(.host a, outcome), (.host b, outcome)],
        [(.host a, outcome), (.host b, outcome), (.host a, outcome)]] := rfl

end PackEngine
