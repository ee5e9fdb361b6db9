import PackEngine.Engine.Machine

/-! What each task does when its turn comes. -/
namespace PackEngine

variable {V : Vocabulary}

namespace Machine

def queueIn (frame : Frame V) (task : Task V) (m : Machine V) : Machine V :=
  m.enqueue ⟨frame, task⟩

/-- Every source through a redirect stage, the outputs in order; `none` when the line ends there.
A failing source is reported and, in a forked line, left out. -/
def redirectAll (rules : Rules V) (issuer : Source V)
    (produce : Source V → V.Setting → Except CommandError (List (Source V))) (forked : Bool) :
    List (Source V) → Array (Source V) → Machine V → Option (List (Source V)) × Machine V
  | [], done, m => (some done.toList, m)
  | source :: rest, done, m =>
      match produce source m.setting with
      | .ok produced =>
          let done := done ++ produced
          if m.limits.forks < done.size then
            (none, m.report rules issuer (.forkLimitReached m.limits.forks) forked)
          else redirectAll rules issuer produce forked rest done m
      | .error error =>
          let m := m.report rules source error forked
          if forked then redirectAll rules issuer produce forked rest done m else (none, m)

/-- One or two sources are queued directly, more through a drip that holds two entries. -/
def queueLeaves (frame : Frame V) (line : LeafLine V) (sources : List (Source V))
    (m : Machine V) : Machine V :=
  match sources with
  | [] => m
  | [a] => m.queueIn frame (.execute line a)
  | [a, b] => (m.queueIn frame (.execute line a)).queueIn frame (.execute line b)
  | _ => m.queueIn frame (.drip line sources)

/-- Each source runs the action; a failing one is reported, told so, and recorded. -/
def actForEach (rules : Rules V) (frame : Frame V) (action : V.Action) (chain : Chain V)
    (flags : Flags) (sources : List (Source V)) (m : Machine V) : Machine V :=
  sources.foldl (fun m source =>
    match (rules.act action source chain flags).run rules frame m with
    | (.ok (), m) => m
    | (.error error, m) =>
        ((m.report rules source error flags.forked).deliver rules source.callback
          Outcome.failure).record frame Outcome.failure) m

/-- The end of a line. A line marked as a return that has no source left makes its frame fail. -/
def finishLine (rules : Rules V) (frame : Frame V) (chain : Chain V) (flags : Flags)
    (sources : List (Source V)) (m : Machine V) : Machine V :=
  if sources.isEmpty then
    if flags.isReturn then m.queueIn frame .fallthrough else m
  else
    match chain.executable with
    | .leaf leaf =>
        let sources := if flags.isReturn then sources.take 1 else sources
        m.queueLeaves frame ⟨leaf, chain.input, flags⟩ sources
    | .action action => m.actForEach rules frame action chain flags sources

/-- Carries the sources through the modifier stages of a line. -/
def walk (rules : Rules V) (frame : Frame V) (issuer : Source V) (chain : Chain V) :
    List (Modifier V) → Flags → List (Source V) → Machine V → Machine V
  | [], flags, sources, m => m.finishLine rules frame { chain with modifiers := [] } flags sources
  | modifier :: rest, flags, sources, m =>
      let flags := flags.union modifier.flags
      let through (produce : Source V → V.Setting → Except CommandError (List (Source V))) :=
        match m.redirectAll rules issuer produce flags.forked sources #[] with
        | (some sources, m) => walk rules frame issuer chain rest flags sources m
        | (none, m) => m
      match modifier.action with
      | .keep => through fun source _ => .ok [source]
      | .redirect redirect => through (rules.redirect redirect)
      | .gate gate =>
          let here := { chain with modifiers := modifier :: rest }
          match (rules.gate gate issuer sources here flags).run rules frame m with
          | (.ok (), m) => m
          | (.error error, m) => m.report rules issuer error flags.forked

def takeSources (sources : Sources V) (m : Machine V) : List (Source V) × Machine V :=
  match sources with
  | .ready sources => (sources, m)
  | .collected cell => (m.heap.collected cell, { m with heap := m.heap.emptyCell cell })

def runLine (rules : Rules V) (frame : Frame V) (issuer : Source V) (sources : Sources V)
    (chain : Chain V) (flags : Flags) (topLevel : Bool) (m : Machine V) : Machine V :=
  let m := if topLevel then m.trace rules (.command frame.depth chain.input) else m
  let (sources, m) := m.takeSources sources
  m.walk rules frame issuer chain chain.modifiers flags sources

def runLeaf (rules : Rules V) (frame : Frame V) (line : LeafLine V) (source : Source V)
    (m : Machine V) : Machine V :=
  let m := m.charge
  let (result, setting) := rules.leaf line.leaf source m.setting
  let m := { m with setting }
  let (outcome, m) : Outcome × Machine V :=
    match result with
    | .ok value => (Outcome.ok value, m.trace rules (.returned frame.depth line.input value))
    | .error error =>
        (Outcome.failure, (m.report rules source error line.flags.forked).trace rules
          (.returned frame.depth line.input 0))
  let m := (m.deliver rules source.callback outcome).record frame outcome
  if line.flags.isReturn then m.returnFrom rules frame outcome else m

def runDrip (frame : Frame V) (line : LeafLine V) (sources : List (Source V)) (m : Machine V) :
    Machine V :=
  match sources with
  | [] => m
  | source :: rest =>
      let m := m.queueIn frame (.execute line source)
      if rest.isEmpty then m else m.queueIn frame (.drip line rest)

/-- The lines of the body and the end of the function, all in the callee's frame. -/
def runCall (rules : Rules V) (frame : Frame V) (function : BoundFunction V)
    (callback : Callback V) (returnCall : Bool) (source : Source V) (m : Machine V) :
    Machine V :=
  let m := m.charge.trace rules (.call frame.depth function.id function.lines.length)
  let (slot, m) := m.newSlot
  let callee := frame.child callback (if returnCall then some frame.boundary else none) slot
  let m := function.lines.foldl (fun m line => m.queueIn callee (Task.command line source)) m
  m.queueIn callee .endFunction

def perform (rules : Rules V) (frame : Frame V) (task : Task V) (m : Machine V) : Machine V :=
  match task with
  | .line issuer sources chain flags topLevel =>
      m.runLine rules frame issuer sources chain flags topLevel
  | .execute line source => m.runLeaf rules frame line source
  | .drip line sources => m.runDrip frame line sources
  | .call function callback returnCall source =>
      m.runCall rules frame function callback returnCall source
  | .endFunction =>
      match m.heap.recorded frame.slot with
      | some outcome => m.returnFrom rules frame outcome
      | none => m
  | .isolated producer output =>
      let (slot, m) := m.newSlot
      (producer.run rules (frame.child output none slot) m).2
  | .fallthrough => m.returnFrom rules frame Outcome.failure
  | .deferred procedure => (procedure.run rules frame m).2

def verdict? (m : Machine V) : Option (Except EngineError Unit) :=
  if m.overflowed then some (.error (.queueOverflow m.limits.queue))
  else if m.stack.isEmpty then some (.ok ())
  else if m.quota = 0 then some (.error (.commandLimitReached m.limits.commands))
  else none

/-- One turn: the top entry runs, and what it queued goes on top. -/
def step (rules : Rules V) (m : Machine V) : Machine V :=
  match m.stack.pop? with
  | none => m
  | some (entry, rest) =>
      ({ m with stack := rest, depth := entry.frame.depth }.perform rules entry.frame
        entry.task).pushPending

def close (verdict : Except EngineError Unit) (m : Machine V) : Machine V :=
  match verdict with
  | .ok () => { m with phase := .complete }
  | .error _ => { m with phase := .failed, pending := Stack.empty, stack := Stack.empty }

/-- Turns until a verdict; `none` if `turns` are not enough. -/
def turn (rules : Rules V) : Nat → Machine V → Option (Except EngineError Unit × Machine V)
  | 0, _ => none
  | turns + 1, m =>
      match m.verdict? with
      | some verdict => some (verdict, m.close verdict)
      | none => turn rules turns (m.step rules)

def run (rules : Rules V) (turns : Nat) (m : Machine V) :
    Option (Except EngineError Unit × Machine V) :=
  if m.phase = .idle then turn rules turns { m with phase := .running }.pushPending
  else some (.error (.notIdle m.phase), m)

end Machine

end PackEngine
