import PackEngine.Engine.Scene

/-! Callbacks as effects on what they share, where a callback may be without one. Composing two of
them asks which of the two are there. The lists of receivers stand for such callbacks. -/
namespace PackEngine

structure Handler (σ : Type) where
  effect? : Option (Outcome → σ → σ)

namespace Handler

variable {σ : Type}

def empty : Handler σ := ⟨none⟩

def new (effect : Outcome → σ → σ) : Handler σ := ⟨some effect⟩

def isEmpty (handler : Handler σ) : Bool := handler.effect?.isNone

def onResult (handler : Handler σ) (outcome : Outcome) (s : σ) : σ :=
  match handler.effect? with
  | none => s
  | some effect => effect outcome s

/-- Where one of the two is empty, this is the other one, and not a new one. -/
def chain (first second : Handler σ) : Handler σ :=
  match first.effect?, second.effect? with
  | none, _ => second
  | _, none => first
  | some a, some b => new fun outcome s => b outcome (a outcome s)

def andThen (handler next : Handler σ) : Handler σ := handler.chain next

@[simp] theorem empty_chain (handler : Handler σ) : empty.chain handler = handler := rfl

@[simp] theorem chain_empty (handler : Handler σ) : handler.chain empty = handler := by
  obtain ⟨_ | effect⟩ := handler <;> rfl

theorem chain_assoc (first second third : Handler σ) :
    (first.chain second).chain third = first.chain (second.chain third) := by
  obtain ⟨_ | a⟩ := first
  · rfl
  · obtain ⟨_ | b⟩ := second
    · rfl
    · obtain ⟨_ | c⟩ := third <;> rfl

@[simp] theorem onResult_chain (first second : Handler σ) (outcome : Outcome) (s : σ) :
    (first.chain second).onResult outcome s =
      second.onResult outcome (first.onResult outcome s) := by
  obtain ⟨_ | a⟩ := first
  · rfl
  · obtain ⟨_ | b⟩ := second <;> rfl

@[simp] theorem isEmpty_chain (first second : Handler σ) :
    (first.chain second).isEmpty = (first.isEmpty && second.isEmpty) := by
  obtain ⟨_ | a⟩ := first
  · rfl
  · obtain ⟨_ | b⟩ := second <;> rfl

end Handler

namespace Callback

variable {V : Vocabulary}

/-- The handler a list of receivers stands for. -/
def handler (rules : Rules V) : Callback V → Handler (Scene V)
  | [] => .empty
  | receiver :: rest => .new fun outcome scene =>
      Callback.deliver rules (receiver :: rest) outcome scene

theorem isEmpty_handler (rules : Rules V) (callback : Callback V) :
    (callback.handler rules).isEmpty = callback.isEmpty := by
  cases callback <;> rfl

theorem onResult_handler (rules : Rules V) (callback : Callback V) (outcome : Outcome)
    (scene : Scene V) :
    (callback.handler rules).onResult outcome scene = callback.deliver rules outcome scene := by
  cases callback <;> rfl

theorem handler_chain (rules : Rules V) (first second : Callback V) :
    (first.chain second).handler rules = (first.handler rules).chain (second.handler rules) := by
  cases first with
  | nil => rfl
  | cons a before =>
    cases second with
    | nil => rw [chain, List.append_nil, handler, Handler.chain_empty]
    | cons b after =>
      have both : Handler.chain (handler rules (a :: before)) (handler rules (b :: after)) =
          .new fun outcome scene => Callback.deliver rules (b :: after) outcome
            (Callback.deliver rules (a :: before) outcome scene) := rfl
      rw [both]
      simp only [← deliver_chain]
      rfl

end Callback

end PackEngine
