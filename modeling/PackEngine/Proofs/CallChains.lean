import PackEngine.Proofs.Passages

/-! Chains of calls. What the innermost function of a chain returns is heard at each of its call
sites, from the innermost to the outermost, and where the chain began. Return calls hand their
results on by the sinks of their frames, and other calls by the end of the body they stand in. -/
namespace PackEngine

open Machine

structure CallSite where
  frame : Frame packWords
  source : PackSource
  function : FunctionId
  /-- The line is marked as a return. -/
  returns : Bool

def CallSite.hears (site : CallSite) : Callback packWords :=
  announced isSilent site.source site.function site.source.callback ++
    if site.returns then [] else site.frame.recorder

structure RootCall where
  frame : Frame packWords
  callback : Callback packWords
  source : PackSource

/-! What a call leads to through call sites, of which the innermost is the first. -/

namespace RootCall

variable (c : RootCall)

def caller : List CallSite → Frame packWords
  | [] => c.frame
  | site :: _ => site.frame

def sink : List CallSite → Callback packWords
  | [] => c.callback
  | site :: outer => site.hears ++ if site.returns then sink outer else []

def returning : List CallSite → Bool
  | [] => false
  | site :: _ => site.returns

def under : List CallSite → PackSource
  | [] => c.source
  | site :: _ => (site.source.mapPersona Persona.forFunction).clearCallbacks

def call (sites : List CallSite) (function : BoundFunction packWords) : Entry packWords :=
  ⟨c.caller sites, .call function (c.sink sites) (returning sites) (c.under sites)⟩

def callee (sites : List CallSite) (slot : SlotId) : Frame packWords :=
  (c.caller sites).child (c.sink sites)
    (if returning sites then some (c.caller sites).boundary else none) slot

def scope (sites : List CallSite) (mark : Heap packWords) : Scope :=
  ⟨c.caller sites, returning sites, c.sink sites, (c.under sites).callback, mark⟩

/-- What is heard of the innermost function's result, or of its end without one. The latter is a
failure of the first enclosing body that returns what its call returns. -/
def relay : List CallSite → Option Outcome → List (Hearing packWords)
  | [], none => []
  | [], some outcome => c.callback.hearing outcome
  | site :: outer, some outcome => site.hears.hearing outcome ++ relay outer (some outcome)
  | site :: outer, none => relay outer (if site.returns then some Outcome.failure else none)

def boundary (sites : List CallSite) : Boundary := (c.scope sites {}).boundary

def leaves (sites : List CallSite) (result : Option Outcome)
    (waiting : List (Entry packWords)) : List (Entry packWords) :=
  (c.scope sites {}).leaves result.toList waiting

def rest : List CallSite → Option Outcome → List (Hearing packWords)
  | [], _ => []
  | site :: outer, some outcome =>
      if site.returns then rest outer (some outcome) else c.relay outer (some outcome)
  | site :: outer, none => c.relay outer (if site.returns then some Outcome.failure else none)

theorem relay_eq (sites : List CallSite) (result : Option Outcome) :
    c.relay sites result = result.toList.flatMap (c.sink sites).hearing ++ c.rest sites result := by
  induction sites with
  | nil => cases result <;> simp [relay, rest, sink]
  | cons site outer ih =>
    cases result with
    | none => rfl
    | some outcome =>
      unfold relay rest sink
      cases site.returns with
      | true => simp [ih]
      | false => simp

end RootCall

def restOfBody (frame : Frame packWords) (source : PackSource) (returns : Bool)
    (further : List (Chain packWords)) : List (Entry packWords) :=
  (if returns then [⟨frame, .fallthrough⟩] else []) ++
    (further.map (fun line => ⟨frame, Task.command line source⟩) ++ [⟨frame, .endFunction⟩])

/-- In `n` turns from now it is the turn of the innermost call of a chain, above what waits below
it. At each site a line runs under one source and names one function. It is the first line of its
body, and the only one unless it is marked as a return. -/
inductive Machine.Nested (pack : Pack) (c : RootCall) (lower : List (Entry packWords))
    (m : Machine packWords) :
    Nat → List CallSite → BoundFunction packWords → List (Entry packWords) → Prop where
  | root {function : BoundFunction packWords}
      (entries : m.stack.entries = c.call [] function :: lower) :
      Nested pack c lower m 0 [] function lower
  | site {n k : Nat} {sites : List CallSite} {function inner : BoundFunction packWords}
      {waiting : List (Entry packWords)} {frame : Frame packWords} {line : Chain packWords}
      {further : List (Chain packWords)} {flags : Flags} {source : PackSource} {target : String}
      {arguments : Option Json} {ref : FunctionRef packWords}
      (outer : Nested pack c lower m n sites function waiting)
      (opens : frame = c.callee sites (m.after (packRules pack) n).heap.slots.size)
      (body : function.lines = line :: further)
      (arrives : ((m.after (packRules pack) n).step (packRules pack)).Arrives (packRules pack) frame
        (restOfBody frame (c.under sites) false further ++ waiting) flags [source] line k)
      (calls : line.executable = .action (.function target arguments))
      (resolves : pack.library.resolve target = .ok [ref])
      (binds : ref.instantiate arguments = .ok inner)
      (only : flags.isReturn = false → further = []) :
      Nested pack c lower m (n + 1 + k + 1) (⟨frame, source, inner.id, flags.isReturn⟩ :: sites)
        inner (restOfBody frame (c.under sites) flags.isReturn further ++ waiting)

variable {pack : Pack} {c : RootCall} {lower waiting : List (Entry packWords)}
  {m : Machine packWords} {n : Nat} {sites : List CallSite} {function : BoundFunction packWords}

/-- Up to the innermost return call's body and beyond, the next slot that results go to holds the
result, and all others of the sites hold nothing. -/
def Heap.Awaits (h : Heap packWords) (result : Option Outcome) : List CallSite → Prop
  | [] => True
  | site :: outer =>
      if site.returns then Awaits h result outer
      else h.recorded site.frame.slot = result ∧ Awaits h none outer

theorem Heap.awaits_none_iff (h : Heap packWords) (sites : List CallSite) :
    h.Awaits none sites ↔
      ∀ site ∈ sites, site.returns = false → h.recorded site.frame.slot = none := by
  induction sites with
  | nil => simp [Awaits]
  | cons site outer ih =>
    cases returns : site.returns <;> simp [Awaits, returns, ih]

/-- The sites of a chain: their callbacks go to the host, and their frames have slots that were
opened after `mark`, the innermost last. -/
structure Chained (mark now : Heap packWords) (sites : List CallSite) : Prop where
  hosted : ∀ site ∈ sites, site.source.callback.Hosted
  young : ∀ site ∈ sites, mark.slots.size ≤ site.frame.slot
  known : ∀ site ∈ sites, site.frame.slot < now.slots.size
  distinct : sites.Pairwise fun inner outer => outer.frame.slot < inner.frame.slot

theorem Chained.opens {mark before now : Heap packWords} (chained : Chained mark before sites)
    {site : CallSite} (hosted : site.source.callback.Hosted)
    (slot : site.frame.slot = before.slots.size) (older : mark.slots.size ≤ before.slots.size)
    (newer : before.slots.size < now.slots.size) : Chained mark now (site :: sites) where
  hosted := List.forall_mem_cons.mpr ⟨hosted, chained.hosted⟩
  young := List.forall_mem_cons.mpr ⟨slot ▸ older, chained.young⟩
  known := List.forall_mem_cons.mpr
    ⟨slot ▸ newer, fun other member => Nat.lt_trans (chained.known other member) newer⟩
  distinct := List.pairwise_cons.mpr
    ⟨fun other member => slot ▸ chained.known other member, chained.distinct⟩

theorem Heap.Awaits.opens {mark before now : Heap packWords} (chained : Chained mark before sites)
    (awaits : before.Awaits none sites) {site : CallSite}
    (empty : now.recorded site.frame.slot = none)
    (same : ∀ id < before.slots.size, now.recorded id = before.recorded id) :
    now.Awaits none (site :: sites) := by
  refine (awaits_none_iff now _).mpr (List.forall_mem_cons.mpr ⟨fun _ => empty, ?_⟩)
  intro other member normal
  rw [same _ (chained.known other member)]
  exact (awaits_none_iff before sites).mp awaits other member normal

theorem announced_append (source : PackSource) (function : FunctionId)
    (first second : Callback packWords) :
    announced isSilent source function (first ++ second) =
      announced isSilent source function first ++ second := by
  unfold announced
  split <;> rfl

theorem CallSite.slot_mem_hears {site : CallSite} (hosted : site.source.callback.Hosted)
    {id : SlotId} (member : .slot id ∈ site.hears) :
    site.returns = false ∧ id = site.frame.slot := by
  unfold hears at member
  cases List.mem_append.mp member with
  | inl member =>
    have among : .slot id ∈ site.source.callback := by
      unfold announced at member
      split at member
      · exact member
      · cases List.mem_cons.mp member with
        | inl same => cases same
        | inr member => exact member
    obtain ⟨listener, same⟩ := hosted _ among
    cases same
  | inr member =>
    cases returns : site.returns with
    | true => simp [returns] at member
    | false =>
      rw [returns] at member
      cases List.mem_singleton.mp member
      exact ⟨rfl, rfl⟩

theorem Machine.Finishes.calls {S : PackSource → Prop} {mark : Heap packWords}
    {frame : Frame packWords} {flags : Flags} {source : PackSource} {chain : Chain packWords}
    (finishes : m.Finishes pack S mark frame lower flags [source] chain) (free : m.Free pack)
    (wide : mark.Expands m.heap) {target : String} {arguments : Option Json}
    {ref : FunctionRef packWords} {inner : BoundFunction packWords}
    (calls : chain.executable = .action (.function target arguments))
    (resolves : pack.library.resolve target = .ok [ref])
    (binds : ref.instantiate arguments = .ok inner) :
    (m.step (packRules pack)).stack.entries =
        ⟨frame, .call inner (announced isSilent source inner.id
          (source.callback.chain (if flags.isReturn then frame.sink else frame.recorder)))
          flags.isReturn (source.mapPersona Persona.forFunction).clearCallbacks⟩ ::
          ((if flags.isReturn then [⟨frame, .fallthrough⟩] else []) ++ lower) ∧
      ∀ id < mark.slots.size, (m.step (packRules pack)).heap.recorded id = m.heap.recorded id := by
  let queued : List (Entry packWords) := ⟨frame, .call inner (announced isSilent source inner.id
    (source.callback.chain (if flags.isReturn then frame.sink else frame.recorder)))
    flags.isReturn (source.mapPersona Persona.forFunction).clearCallbacks⟩ ::
      if flags.isReturn then [⟨frame, .fallthrough⟩] else []
  have all : FunctionRef.instantiateAll arguments [ref] = .ok [inner] := by
    unfold FunctionRef.instantiateAll
    rw [binds]
    rfl
  have ends (there : Machine packWords) :
      finishOperations (packRules pack) frame { chain with modifiers := [] } flags [source] there =
        .update (source.persona.sendSuccess (runningText [ref])) :: queued.map .queue := by
    unfold finishOperations
    rw [if_neg (by simp)]
    simp only [calls, actAllOperations]
    rw [actOperations_functions resolves all, queueFunctions_operations, all, List.append_nil]
    cases returns : flags.isReturn <;> simp [queued, returns]
  obtain ⟨stack, silent, spare⟩ := finishes.queues free fun there => by
    rw [ends]
    refine ⟨Operation.queuedIn_map_queue queued, fun operation member => ?_⟩
    cases List.mem_cons.mp member with
    | inl same => exact same ▸ .update _ _
    | inr member =>
      obtain ⟨entry, _, rfl⟩ := List.mem_map.mp member
      exact .queue _ entry
  refine ⟨stack, fun id known => ?_⟩
  have follows := (step_follows (packRules pack) spare wide).slots id known
  rw [silent] at follows
  exact follows

namespace RootCall

theorem under_hosted (hosted : c.source.callback.Hosted) (sites : List CallSite) :
    (c.under sites).callback.Hosted := by
  cases sites with
  | nil => exact hosted
  | cons site outer => exact Callback.hosted_empty

theorem call_site {frame : Frame packWords} {slot : SlotId} (opens : frame = c.callee sites slot)
    (source : PackSource) (inner : BoundFunction packWords) (returns : Bool) :
    c.call (⟨frame, source, inner.id, returns⟩ :: sites) inner =
      ⟨frame, .call inner (announced isSilent source inner.id
        (source.callback.chain (if returns then frame.sink else frame.recorder))) returns
        (source.mapPersona Persona.forFunction).clearCallbacks⟩ := by
  have sink : frame.sink = c.sink sites := congrArg Frame.sink opens
  have told : c.sink (⟨frame, source, inner.id, returns⟩ :: sites) =
      announced isSilent source inner.id
        (source.callback.chain (if returns then frame.sink else frame.recorder)) := by
    unfold RootCall.sink CallSite.hears Callback.chain
    rw [announced_append]
    cases returns <;> simp [sink]
  unfold call
  rw [told]
  rfl

end RootCall

theorem Machine.Nested.stands (nested : m.Nested pack c lower n sites function waiting)
    (free : m.Free pack) (hosted : c.source.callback.Hosted) :
    m.Runs (packRules pack) n ∧
      (m.after (packRules pack) n).stack.entries = c.call sites function :: waiting ∧
      Chained m.heap (m.after (packRules pack) n).heap sites ∧
      (m.after (packRules pack) n).heap.Awaits none sites := by
  induction nested with
  | root entries =>
    refine ⟨runs_zero _ m, entries, ⟨?_, ?_, ?_, .nil⟩, trivial⟩ <;>
      exact fun _ member => absurd member List.not_mem_nil
  | @site n k sites function inner waiting frame line further flags source target arguments ref
      outer opens body arrives calls resolves binds only ih =>
    obtain ⟨runs, entries, chained, awaits⟩ := ih
    let before := m.after (packRules pack) n
    let started := before.step (packRules pack)
    let arrived := started.after (packRules pack) k
    have there : before.Free pack := free.after runs
    obtain ⟨stack, size, empty, same⟩ := there.opens_body entries opens
    have under := RootCall.under_hosted hosted sites
    have first : started.stack.entries = ⟨frame, Task.command line (c.under sites)⟩ ::
        (restOfBody frame (c.under sites) false further ++ waiting) := by
      rw [stack, body]
      simp [restOfBody]
    obtain ⟨more, finishes, kept⟩ := arrives.finishes (there.step entries)
      (keepsStores_from (c.under sites).callback).redirectsKeep (Heap.Expands.refl started.heap)
      fun issuer sources before topLevel entries => by
        cases first.symm.trans entries
        exact .command under.from _ _
    have free' : arrived.Free pack := (there.step entries).after more
    obtain ⟨left, unchanged⟩ :=
      finishes.calls free' (after_expands (packRules pack) k started) calls resolves binds
    have last : m.after (packRules pack) (n + 1 + k + 1) = arrived.step (packRules pack) := by
      rw [after_succ, after_add, after_succ]
    have known : started.heap.slots.size ≤ (arrived.step (packRules pack)).heap.slots.size :=
      ((after_expands (packRules pack) k started).trans
        (step_expands (packRules pack) arrived)).slots
    have slot : frame.slot = before.heap.slots.size := congrArg Frame.slot opens
    have recorded (id : SlotId) (le : id < started.heap.slots.size) :
        (arrived.step (packRules pack)).heap.recorded id = started.heap.recorded id :=
      (unchanged id le).trans (kept id le)
    rw [last]
    refine ⟨?_, ?_, chained.opens ?_ slot (after_expands (packRules pack) n m).slots
      (Nat.lt_of_lt_of_le size known), awaits.opens chained ?_ fun id le => ?_⟩
    · have goes : m.Runs (packRules pack) (n + 1) :=
        (runs_succ_last_iff _ n m).mpr ⟨runs, there.goes entries⟩
      have further : m.Runs (packRules pack) (n + 1 + k) := by
        refine (runs_add_iff _ (n + 1) k m).mpr ⟨goes, ?_⟩
        rw [after_succ]
        exact more
      refine (runs_succ_last_iff _ _ m).mpr ⟨further, ?_⟩
      rw [after_add, after_succ]
      exact free'.goes finishes.top.choose_spec
    · rw [left, ← RootCall.call_site opens]
      simp [restOfBody]
    · intro receiver among
      obtain ⟨listener, form, _⟩ := finishes.fit source List.mem_cons_self receiver among
      exact ⟨listener, form⟩
    · rw [slot, recorded _ size]
      exact empty
    · rw [recorded _ (Nat.lt_trans le size)]
      exact same id le

namespace RootCall

theorem callee_boundary (sites : List CallSite) (slot : SlotId) :
    (c.callee sites slot).boundary = c.boundary sites := by
  unfold callee boundary scope Scope.boundary
  cases returning sites <;> rfl

theorem callee_covers {sites : List CallSite}
    (valid : (c.caller sites).boundary.depth ≤ (c.caller sites).depth) (slot : SlotId) :
    (c.boundary sites).covers (c.callee sites slot) = true := by
  have seed : (c.callee sites slot).boundary.seed = (c.boundary sites).seed :=
    congrArg Boundary.seed (callee_boundary sites slot)
  have depth : (c.boundary sites).depth ≤ (c.callee sites slot).depth := by
    unfold boundary scope Scope.boundary
    cases returning sites with
    | true => exact Nat.le_succ_of_le valid
    | false => exact Nat.le_refl _
  simp [Boundary.covers, seed, depth]

end RootCall

structure Machine.Answered (c : RootCall) (mark : Heap packWords) (sites : List CallSite)
    (result : Option Outcome) (waiting : List (Entry packWords)) (m : Machine packWords) :
    Prop where
  entries : m.stack.entries = c.leaves sites result waiting
  awaits : m.heap.Awaits result sites
  chained : Chained mark m.heap sites

theorem Chained.later {mark before now : Heap packWords} (chained : Chained mark before sites)
    (grown : before.slots.size ≤ now.slots.size) : Chained mark now sites :=
  { chained with
    known := fun site member => Nat.lt_of_lt_of_le (chained.known site member) grown }

theorem CallSite.slotAfter_hears {site : CallSite} (hosted : site.source.callback.Hosted)
    (outcome : Outcome) {id : SlotId} (other : site.returns = false → id ≠ site.frame.slot)
    (held : Option Outcome) : Heap.slotAfter id (site.hears.hearing outcome) held = held := by
  refine Heap.slotAfter_unheard (fun heard member same => ?_) held
  obtain ⟨receiver, among, rfl⟩ := List.mem_map.mp member
  have slot : receiver = .slot id := same
  obtain ⟨normal, form⟩ := CallSite.slot_mem_hears hosted (slot ▸ among)
  exact other normal form

theorem Heap.Awaits.hears {mark size before now : Heap packWords}
    (chained : Chained mark size sites) (awaits : before.Awaits none sites) (outcome : Outcome)
    (heard : ∀ site ∈ sites, now.recorded site.frame.slot =
      slotAfter site.frame.slot ((c.sink sites).hearing outcome)
        (before.recorded site.frame.slot)) :
    now.Awaits (some outcome) sites := by
  induction sites with
  | nil => trivial
  | cons site outer ih =>
    obtain ⟨hosted, hostedOuter⟩ := List.forall_mem_cons.mp chained.hosted
    obtain ⟨young, youngOuter⟩ := List.forall_mem_cons.mp chained.young
    obtain ⟨known, knownOuter⟩ := List.forall_mem_cons.mp chained.known
    obtain ⟨first, distinct⟩ := List.pairwise_cons.mp chained.distinct
    have empty := (awaits_none_iff before _).mp awaits
    unfold RootCall.sink at heard
    unfold Awaits
    cases returns : site.returns with
    | true =>
      simp only [returns, if_true] at heard ⊢
      refine ih ⟨hostedOuter, youngOuter, knownOuter, distinct⟩ ?_ fun other member => ?_
      · exact (awaits_none_iff before _).mpr fun other member =>
          empty other (List.mem_cons_of_mem _ member)
      · rw [heard other (List.mem_cons_of_mem _ member), Callback.hearing_append, slotAfter_append,
          CallSite.slotAfter_hears hosted outcome fun normal => by simp [normal] at returns]
    | false =>
      simp only [returns, Bool.false_eq_true, if_false, List.append_nil] at heard ⊢
      refine ⟨?_, (awaits_none_iff now _).mpr fun other member normal => ?_⟩
      · rw [heard site List.mem_cons_self]
        unfold CallSite.hears
        rw [returns, Callback.hearing_append, slotAfter_append]
        exact if_pos rfl
      · rw [heard other (List.mem_cons_of_mem _ member),
          CallSite.slotAfter_hears hosted outcome fun _ => Nat.ne_of_lt (first other member)]
        exact empty other (List.mem_cons_of_mem _ member) normal

def Machine.EndsBody (m : Machine packWords) : Prop :=
  ∃ frame task others, m.stack.entries = ⟨frame, task⟩ :: others ∧
    (task = .fallthrough ∨ task = .endFunction)

theorem Machine.Answered.of_return {mark : Heap packWords} {frame : Frame packWords}
    {task : Task packWords} {others : List (Entry packWords)} {slot : SlotId} (free : m.Free pack)
    (entries : m.stack.entries = ⟨frame, task⟩ :: (others ++ waiting))
    (ending : task = .fallthrough ∨ task = .endFunction) {outcome : Outcome}
    (returns : (m.taking ⟨frame, task⟩ (others ++ waiting)).operations (packRules pack) frame
      task = [.returnFrom frame outcome])
    (opens : frame = c.callee sites slot)
    (valid : (c.caller sites).boundary.depth ≤ (c.caller sites).depth)
    (own : ∀ entry ∈ others, entry.frame = frame) (awaits : m.heap.Awaits none sites)
    (chained : Chained mark m.heap sites) :
    m.EndsBody ∧
      m.turnHeard (packRules pack) = (some outcome).toList.flatMap (c.sink sites).hearing ∧
      (m.step (packRules pack)).Answered c mark sites (some outcome) waiting := by
  have sink : frame.sink = c.sink sites := congrArg Frame.sink opens
  have boundary : frame.boundary = c.boundary sites := by
    rw [opens, RootCall.callee_boundary]
  obtain ⟨heard, stack, spare⟩ := free.reached.returning_turn outcome entries returns
  rw [sink] at heard
  have follows := step_follows (packRules pack) (spare m.heap) (Heap.Expands.refl m.heap)
  rw [heard] at follows
  refine ⟨⟨_, _, _, entries, ending⟩, heard.trans (List.append_nil _).symm, ?_, ?_,
    chained.later (step_expands (packRules pack) m).slots⟩
  · rw [stack, boundary]
    refine List.dropWhile_append_of_pos fun entry member => ?_
    rw [own entry member, opens]
    exact RootCall.callee_covers valid slot
  · exact awaits.hears chained outcome fun site member =>
      follows.slots _ (chained.known site member)

theorem frame_of_mem_restOfBody {frame : Frame packWords} {source : PackSource} {returns : Bool}
    {further : List (Chain packWords)} {entry : Entry packWords}
    (member : entry ∈ restOfBody frame source returns further) : entry.frame = frame := by
  unfold restOfBody at member
  simp only [List.mem_append, List.mem_map, List.mem_singleton] at member
  obtain member | ⟨line, _, rfl⟩ | rfl := member
  · split at member
    · rw [List.mem_singleton.mp member]
    · cases member
  · rfl
  · rfl

structure Machine.Closes (pack : Pack) (lower : List (Entry packWords)) (m : Machine packWords)
    (j : Nat) (log : List (Hearing packWords)) : Prop where
  runs : m.Runs (packRules pack) j
  heard : m.log (packRules pack) j = log
  left : (m.after (packRules pack) j).stack.entries = lower
  ends : ∀ i < j, (m.after (packRules pack) i).EndsBody

theorem Machine.EndsBody.noLine (ends : m.EndsBody) (frame : Frame packWords) :
    m.NoLine frame := by
  obtain ⟨other, task, others, entries, form⟩ := ends
  intro issuer sources chain flags topLevel rest line
  cases entries.symm.trans line
  obtain form | form := form <;> cases form

theorem Machine.Closes.of_turn {j : Nat} {log : List (Hearing packWords)} (free : m.Free pack)
    (ends : m.EndsBody) (later : (m.step (packRules pack)).Closes pack lower j log) :
    m.Closes pack lower (j + 1) (m.turnHeard (packRules pack) ++ log) where
  runs := by
    obtain ⟨frame, task, others, entries, _⟩ := ends
    exact (runs_succ_iff _ j m).mpr ⟨free.goes entries, later.runs⟩
  heard := congrArg _ later.heard
  left := later.left
  ends i less := by
    cases i with
    | zero => exact ends
    | succ i => exact later.ends i (Nat.lt_of_succ_lt_succ less)

theorem Machine.operations_endFunction (rules : Rules packWords) {frame : Frame packWords}
    {recorded : Option Outcome} (records : m.heap.recorded frame.slot = recorded) :
    m.operations rules frame .endFunction =
      recorded.toList.map (Operation.returnFrom frame) := by
  subst records
  simp only [operations]
  cases m.heap.recorded frame.slot <;> rfl

theorem Machine.Answered.of_end {mark : Heap packWords} {frame : Frame packWords}
    (free : m.Free pack) (entries : m.stack.entries = ⟨frame, .endFunction⟩ :: waiting)
    (empty : m.heap.recorded frame.slot = none) (awaits : m.heap.Awaits none sites)
    (chained : Chained mark m.heap sites) :
    m.EndsBody ∧ m.turnHeard (packRules pack) = [] ∧
      (m.step (packRules pack)).Answered c mark sites none waiting := by
  have turn : m.turnOperations (packRules pack) = [] := by
    rw [turnOperations_of_entries _ entries]
    exact operations_endFunction (packRules pack) empty
  have tacit : ∀ operation ∈ m.turnOperations (packRules pack), Tacit m.heap operation := by
    rw [turn]
    exact fun _ member => absurd member List.not_mem_nil
  have queues : Operation.queuedIn (m.turnOperations (packRules pack)) = [] := by
    rw [turn]
    rfl
  obtain ⟨stack, silent, _⟩ := (free.above _).queues entries tacit queues
  have heap : (m.step (packRules pack)).heap = m.heap := by
    rw [step_eq_applyAll _ entries, turn]
    rfl
  exact ⟨⟨_, _, _, entries, .inr rfl⟩, silent, stack, heap ▸ awaits, heap ▸ chained⟩

theorem Chained.outer {mark now : Heap packWords} {site : CallSite}
    (chained : Chained mark now (site :: sites)) : Chained mark now sites :=
  ⟨(List.forall_mem_cons.mp chained.hosted).2, (List.forall_mem_cons.mp chained.young).2,
    (List.forall_mem_cons.mp chained.known).2, (List.pairwise_cons.mp chained.distinct).2⟩

theorem RootCall.leaves_returning {site : CallSite} {slot : SlotId}
    (returns : site.returns = true) (opens : site.frame = c.callee sites slot)
    (valid : (c.caller sites).boundary.depth ≤ (c.caller sites).depth)
    (further : List (Chain packWords)) (outcome : Outcome) :
    c.leaves (site :: sites) (some outcome)
        (restOfBody site.frame (c.under sites) site.returns further ++ waiting) =
      c.leaves sites (some outcome) waiting := by
  have reach : c.boundary (site :: sites) = c.boundary sites := by
    rw [← callee_boundary sites slot, ← opens]
    exact if_pos returns
  show List.dropWhile (fun entry => (c.boundary (site :: sites)).covers entry.frame) _ =
    waiting.dropWhile fun entry => (c.boundary sites).covers entry.frame
  rw [reach]
  refine List.dropWhile_append_of_pos fun entry member => ?_
  rw [frame_of_mem_restOfBody member, opens]
  exact callee_covers valid slot

/-- How a site passes on what its call has answered. A result of a return call has gone to the next
site already; anything else goes there in the turn that ends the body the call stands in. -/
theorem Machine.Answered.outward {mark : Heap packWords} {site : CallSite} {slot : SlotId}
    {further : List (Chain packWords)} {result : Option Outcome} (free : m.Free pack)
    (answered : m.Answered c mark (site :: sites) result
      (restOfBody site.frame (c.under sites) site.returns further ++ waiting))
    (opens : site.frame = c.callee sites slot)
    (valid : (c.caller sites).boundary.depth ≤ (c.caller sites).depth)
    (only : site.returns = false → further = []) :
    (c.rest (site :: sites) result = c.rest sites result ∧
      m.Answered c mark sites result waiting) ∨
    ∃ passed, c.rest (site :: sites) result = c.relay sites passed ∧ m.EndsBody ∧
      m.turnHeard (packRules pack) = passed.toList.flatMap (c.sink sites).hearing ∧
      (m.step (packRules pack)).Answered c mark sites passed waiting := by
  obtain ⟨frame, source, called, returns⟩ := site
  change frame = c.callee sites slot at opens
  obtain ⟨stack, awaits, chained⟩ := answered
  cases returns with
  | true =>
    cases result with
    | some outcome =>
      exact .inl ⟨rfl, stack.trans (RootCall.leaves_returning rfl opens valid further outcome),
        awaits, chained.outer⟩
    | none =>
      have top : m.stack.entries = ⟨frame, .fallthrough⟩ ::
          (restOfBody frame (c.under sites) false further ++ waiting) := stack
      exact .inr ⟨some Outcome.failure, rfl, Answered.of_return free top (.inl rfl) rfl opens valid
        (fun _ member => frame_of_mem_restOfBody member) awaits chained.outer⟩
  | false =>
    have alone : restOfBody frame (c.under sites) false further = [⟨frame, .endFunction⟩] := by
      rw [only rfl]
      rfl
    rw [alone] at stack
    cases result with
    | none => exact .inr ⟨none, rfl, Answered.of_end free stack awaits.1 awaits.2 chained.outer⟩
    | some outcome =>
      have stops : ¬frame.below.covers frame = true := by
        intro covers
        have deeper := of_decide_eq_true (Bool.and_eq_true_iff.mp covers).2
        exact Nat.not_succ_le_self frame.depth deeper
      have top : m.stack.entries = ⟨frame, .endFunction⟩ :: ([] ++ waiting) := by
        refine stack.trans ?_
        show List.dropWhile (fun entry : Entry packWords => frame.below.covers entry.frame) _ = _
        exact List.dropWhile_cons_of_neg stops
      exact .inr ⟨some outcome, rfl, Answered.of_return free top (.inr rfl)
        (operations_endFunction (packRules pack) awaits.1) opens valid
        (fun _ member => absurd member List.not_mem_nil) awaits.2 chained.outer⟩

/-- The rest of the chain hears the innermost function's result, and is over; by induction on the
sites. -/
theorem Machine.Nested.closes (nested : m.Nested pack c lower n sites function waiting)
    (free : m.Free pack) (hosted : c.source.callback.Hosted) {result : Option Outcome}
    {ended : Machine packWords} (now : ended.Free pack)
    (answered : ended.Answered c m.heap sites result waiting) :
    ∃ j, ended.Closes pack lower j (c.rest sites result) := by
  induction nested generalizing result ended with
  | root entries =>
    have kept : c.leaves [] result lower = lower :=
      Scope.leaves_of_call rfl (free.reached.top_precedes entries) result.toList
    exact ⟨0, runs_zero _ ended, by cases result <;> rfl, answered.entries.trans kept,
      fun _ less => absurd less (Nat.not_lt_zero _)⟩
  | site outer opens body arrives calls resolves binds only ih =>
    obtain ⟨runs, entries, _, _⟩ := outer.stands free hosted
    have valid := ((free.after runs).known entries).valid
    obtain ⟨same, answered⟩ | ⟨passed, same, ⟨_, _, _, top, ending⟩, heard, answered⟩ :=
      answered.outward now opens valid only
    · rw [same]
      exact ih now answered
    · obtain ⟨j, closes⟩ := ih (now.step top) answered
      have all := closes.of_turn now ⟨_, _, _, top, ending⟩
      rw [heard, ← RootCall.relay_eq, ← same] at all
      exact ⟨j + 1, all⟩

theorem Machine.Episode.answered {mark : Heap packWords} {k : Nat} {result : Option Outcome}
    (episode : m.Episode pack (c.scope sites m.heap) waiting k result.toList)
    (chained : Chained mark m.heap sites) (awaits : m.heap.Awaits none sites) :
    (m.after (packRules pack) k).Answered c mark sites result waiting ∧
      ∃ own, m.log (packRules pack) k = own ++ result.toList.flatMap (c.sink sites).hearing ∧
        ∀ heard ∈ own, heard.1.Since m.heap (c.under sites).callback := by
  have follows := episode.hears.follows episode.follows
  have later := chained.later follows.expands.slots
  have same (site : CallSite) (member : site ∈ sites) :=
    follows.slots site.frame.slot (chained.known site member)
  cases result with
  | none =>
    have empty := (Heap.awaits_none_iff _ _).mp awaits
    refine ⟨⟨episode.left, (Heap.awaits_none_iff _ _).mpr fun site member normal =>
      (same site member).trans (empty site member normal), later⟩, ?_⟩
    cases episode.hears with
    | nothing own => exact ⟨_, (List.append_nil _).symm, own⟩
  | some outcome =>
    refine ⟨⟨episode.left, awaits.hears (c := c) chained outcome fun site member => ?_, later⟩,
      ?_⟩
    · simpa [RootCall.scope] using same site member
    · generalize log : m.log (packRules pack) k = heard
      have hears : (c.scope sites m.heap).Hears [outcome] heard := log ▸ episode.hears
      cases hears with
      | last own outcome => exact ⟨_, by simp [RootCall.scope], own⟩
      | next own outcome nonempty rest => exact absurd rfl nonempty

namespace Machine.Nested

theorem starts (nested : m.Nested pack c lower n sites function waiting) :
    ∃ root, m.stack.entries = c.call [] root :: lower := by
  induction nested with
  | root entries => exact ⟨_, entries⟩
  | site outer opens body arrives calls resolves binds only ih => exact ih

theorem waits (nested : m.Nested pack c lower n sites function waiting) (further : sites ≠ []) :
    ∃ entry ∈ waiting, entry.frame = c.callee [] m.heap.slots.size := by
  induction nested with
  | root entries => exact absurd rfl further
  | @site n k sites function inner waiting frame line more flags source target arguments ref
      outer opens body arrives calls resolves binds only ih =>
    cases outer with
    | root entries =>
      refine ⟨⟨frame, .endFunction⟩, List.mem_append_left _ ?_, opens⟩
      simp [restOfBody]
    | site outer opens body arrives calls resolves binds only =>
      obtain ⟨entry, member, first⟩ := ih (List.cons_ne_nil _ _)
      exact ⟨entry, List.mem_append_right _ member, first⟩

/-- Until the innermost call's turn, nobody outside the root call's scope hears anything. -/
theorem silent (nested : m.Nested pack c lower n sites function waiting) (free : m.Free pack)
    (hosted : c.source.callback.Hosted) :
    ∀ heard ∈ m.log (packRules pack) n, heard.1.Since m.heap c.source.callback := by
  obtain ⟨root, entries⟩ := nested.starts
  obtain ⟨last, outcomes, positive, episode⟩ := free.call_episode entries hosted
  obtain ⟨runs, there, _, _⟩ := nested.stands free hosted
  refine episode.silent n (Nat.lt_of_not_le fun late => ?_)
  have nonempty : sites ≠ [] := by
    intro flat
    subst flat
    cases nested
    exact absurd positive (Nat.not_lt_of_le late)
  -- The first body is gone once the root call is over, but its end still waits.
  let first := c.callee [] m.heap.slots.size
  have known : first.slot < (m.after (packRules pack) last).heap.slots.size := by
    obtain ⟨last, rfl⟩ := Nat.exists_eq_succ_of_ne_zero (Nat.ne_of_gt positive)
    obtain ⟨_, size, _⟩ := free.opens_body entries rfl
    exact Nat.lt_of_lt_of_le size (after_expands (packRules pack) last _).slots
  have absent : ∀ entry ∈ (m.after (packRules pack) last).stack.entries, entry.frame ≠ first := by
    intro entry member same
    rw [episode.left, Scope.leaves_of_call rfl (free.reached.top_precedes entries)] at member
    have older := (free.reached.knows entry (entries ▸ List.mem_cons_of_mem _ member)).known
    rw [same] at older
    exact absurd older (Nat.lt_irrefl _)
  obtain ⟨more, rfl⟩ := Nat.exists_eq_add_of_le late
  have further := ((runs_add_iff _ last more m).mp runs).2
  have never := (free.after episode.runs).reached.absent known absent further
  obtain ⟨entry, member, same⟩ := nested.waits nonempty
  rw [← after_add, there] at never
  exact never entry (List.mem_cons_of_mem _ member) same

theorem noLine (nested : m.Nested pack c lower n sites function waiting) (free : m.Free pack)
    (hosted : c.source.callback.Hosted) {k j : Nat} {outcomes : List Outcome}
    {log : List (Hearing packWords)}
    (episode : (m.after (packRules pack) n).Episode pack
      (c.scope sites (m.after (packRules pack) n).heap) waiting k outcomes)
    (closes : ((m.after (packRules pack) n).after (packRules pack) k).Closes pack lower j log)
    {site : CallSite} (member : site ∈ sites) {i : Nat}
    (runs : (m.after (packRules pack) n).Runs (packRules pack) i) :
    ((m.after (packRules pack) n).after (packRules pack) i).NoLine site.frame := by
  obtain ⟨before, entries, chained, _⟩ := nested.stands free hosted
  have here := free.after before
  have known := chained.known site member
  by_cases during : i < k
  · cases i with
    | zero =>
      intro issuer sources chain flags topLevel others line
      cases congrArg Entry.task (List.cons.inj (entries.symm.trans line)).1
    | succ i =>
      obtain ⟨top, upper, above, opened⟩ := episode.above (i + 1) during (Nat.succ_pos i)
      refine noLine_of_frame above fun same => ?_
      have young := opened.young
      rw [same] at young
      exact absurd young (Nat.not_le_of_lt known)
  obtain ⟨i, rfl⟩ := Nat.exists_eq_add_of_le (Nat.le_of_not_lt during)
  rw [after_add]
  by_cases ending : i < j
  · exact (closes.ends i ending).noLine site.frame
  -- Then only the lower work is left, which has never known the site's frame.
  obtain ⟨i, rfl⟩ := Nat.exists_eq_add_of_le (Nat.le_of_not_lt ending)
  rw [after_add]
  obtain ⟨root, start⟩ := nested.starts
  have grown := ((after_expands (packRules pack) k (m.after (packRules pack) n)).trans
    (after_expands (packRules pack) j _)).slots
  have more := ((runs_add_iff _ k (j + i) _).mp runs).2
  refine ((here.after episode.runs).after closes.runs).noLine_of_absent
    (Nat.lt_of_lt_of_le known grown) ?_ ((runs_add_iff _ j i _).mp more).2
  rw [closes.left]
  intro entry waits same
  have older := (free.reached.knows entry (start ▸ List.mem_cons_of_mem _ waits)).known
  rw [same] at older
  exact absurd older (Nat.not_lt_of_le (chained.young site member))

end Machine.Nested

/-- Results travel unchanged through a chain of calls. When the innermost function has returned
once, or has ended without a result, each call site hears of it in its turn, and last the root
call's callback, as the relay says; and no line runs in the frame of a call site from its call
on. -/
theorem Machine.Reached.calls_relay (reached : m.Reached (packRules pack) PackTask)
    (unlimited : m.Unlimited (packRules pack)) (hosted : c.source.callback.Hosted)
    (nested : m.Nested pack c lower n sites function waiting) :
    m.Runs (packRules pack) n ∧
    (m.after (packRules pack) n).stack.entries = c.call sites function :: waiting ∧
    (∀ heard ∈ m.log (packRules pack) n, heard.1.Since m.heap c.source.callback) ∧
    ∃ k outcomes,
      (m.after (packRules pack) n).Episode pack
        (c.scope sites (m.after (packRules pack) n).heap) waiting k outcomes ∧
      (outcomes.length ≤ 1 → ∃ own j,
        (m.after (packRules pack) n).Runs (packRules pack) (k + j) ∧
        (m.after (packRules pack) n).log (packRules pack) (k + j) =
          own ++ c.relay sites outcomes.head? ∧
        (∀ heard ∈ own, heard.1.Since (m.after (packRules pack) n).heap
          (c.under sites).callback) ∧
        (m.after (packRules pack) (n + k + j)).stack.entries = lower ∧
        ∀ i, (m.after (packRules pack) n).Runs (packRules pack) i → ∀ site ∈ sites,
          (m.after (packRules pack) (n + i)).NoLine site.frame) := by
  have free : m.Free pack := ⟨reached, unlimited⟩
  obtain ⟨runs, entries, chained, awaits⟩ := nested.stands free hosted
  refine ⟨runs, entries, nested.silent free hosted, ?_⟩
  have here := free.after runs
  obtain ⟨k, outcomes, _, episode⟩ :=
    here.call_episode entries (RootCall.under_hosted hosted sites)
  refine ⟨k, outcomes, episode, fun single => ?_⟩
  have one : outcomes = outcomes.head?.toList := by
    cases outcomes with
    | nil => rfl
    | cons outcome others =>
      have nothing : others = [] := List.length_eq_zero_iff.mp (by simpa using single)
      rw [nothing]
      rfl
  rw [one] at episode
  obtain ⟨answered, own, heard, ownly⟩ := episode.answered chained awaits
  obtain ⟨j, closes⟩ := nested.closes free hosted (here.after episode.runs) answered
  refine ⟨own, j, (runs_add_iff _ k j _).mpr ⟨episode.runs, closes.runs⟩, ?_, ownly, ?_,
    fun i further site member => ?_⟩
  · rw [log_add, heard, closes.heard, List.append_assoc, ← c.relay_eq]
  · rw [after_add, after_add]
    exact closes.left
  · rw [after_add]
    exact nested.noLine free hosted episode closes member further

/-- A function that returns what the next one returns, which only calls a third one. -/
def relayPack : Pack where
  functions :=
    [(⟨"minecraft", "five", .refl true, .refl true⟩,
      { lines := [.obj [("run", .arr [.str "Return", .num (.int 5)])]] }),
     (⟨"minecraft", "hand", .refl true, .refl true⟩,
      { lines := [.obj [("run", .arr [.str "Function", .str "five"])]] }),
     (⟨"minecraft", "root", .refl true, .refl true⟩, { lines := [
      .obj [("return", .bool true), ("run", .arr [.str "Function", .str "hand"])],
      .obj [("run", .arr [.str "Say", .str "late"])]] })]

def relayRun : Machine packWords :=
  ({ target := "root" } : RunRequest).opening
    ((RunRequest.functions relayPack { target := "root" }).toOption.getD []) {}

def relayRoot : RootCall where
  frame := Frame.root 0 Callback.empty 0
  callback := [.host (.finished ⟨"minecraft", "root", .refl true, .refl true⟩)]
  source := PackSource.server

theorem calls_relay_five : ∃ n sites function waiting,
    relayRun.Reached (packRules relayPack) PackTask ∧ relayRun.Unlimited (packRules relayPack) ∧
      relayRoot.source.callback.Hosted ∧
      relayRun.Nested relayPack relayRoot [] n sites function waiting ∧
      sites.map (·.returns) = [false, true] ∧ ∃ k outcomes,
        (relayRun.after (packRules relayPack) n).Episode relayPack
          (relayRoot.scope sites (relayRun.after (packRules relayPack) n).heap) waiting k
          outcomes := by
  have reached : relayRun.Reached (packRules relayPack) PackTask :=
    RunRequest.opening_reached { target := "root" }
      ((RunRequest.functions relayPack { target := "root" }).toOption.getD []) {} relayPack
  have unlimited : relayRun.Unlimited (packRules relayPack) :=
    unlimited_of_turn (show turn (packRules relayPack) 20 relayRun = some (.ok (), _) from rfl)
  have hosted : relayRoot.source.callback.Hosted := Callback.hosted_empty
  have root : relayRun.Nested relayPack relayRoot [] 0 [] _ [] := .root rfl
  have outer := root.site (k := 0) rfl rfl (.ends rfl rfl) rfl rfl rfl (fun same => by cases same)
  have nested := outer.site (k := 0) rfl rfl (.ends rfl rfl) rfl rfl rfl fun _ => rfl
  obtain ⟨_, _, _, k, outcomes, episode, _⟩ := reached.calls_relay unlimited hosted nested
  exact ⟨_, _, _, _, reached, unlimited, hosted, nested, rfl, k, outcomes, episode⟩

end PackEngine
