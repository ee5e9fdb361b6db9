import PackEngine.Config.Variables
import PackEngine.Text.Blank
import PackEngine.Text.Wordlike

/-! Files of variables: lines `NAME=value` with comments, quotes, escapes and references to other
variables. Reading stops at the first line that cannot be read; what stands before it counts. -/
namespace PackEngine.DotEnv

/-! A line goes on in the next one while a quote is open. -/

inductive LineState where
  | complete
  | escape
  | single
  | singleEscape
  | double
  | doubleEscape
  | blank
deriving DecidableEq, Repr

/-- The state after a character; `none` where a comment begins. -/
def LineState.next? : LineState → Char → Option LineState
  | .blank, '#' => none
  | .blank, '\\' => some .escape
  | .blank, '"' => some .double
  | .blank, '\'' => some .single
  | .blank, _ => some .complete
  | .escape, _ => some .complete
  | .complete, '\\' => some .escape
  | .complete, '"' => some .double
  | .complete, '\'' => some .single
  | .complete, c =>
      some (if isWhiteSpace c && c != '\n' && c != '\r' then .blank else .complete)
  | .double, '\\' => some .doubleEscape
  | .double, '"' => some .complete
  | .double, _ => some .double
  | .doubleEscape, _ => some .double
  | .single, '\\' => some .singleEscape
  | .single, '\'' => some .complete
  | .single, _ => some .single
  | .singleEscape, _ => some .single

/-- The text before a comment, and the state at the end unless there is one. -/
def scanLine (state : LineState) (kept : List Char) : List Char → List Char × Option LineState
  | [] => (kept.reverse, some state)
  | c :: cs =>
      match state.next? c with
      | some state => scanLine state (c :: kept) cs
      | none => (kept.reverse, none)

def dropLineEnd (line : List Char) : List Char :=
  match line.reverse with
  | '\n' :: '\r' :: before => before.reverse
  | '\n' :: before => before.reverse
  | _ => line

/-- Joins lines of the file to the lines they mean. A line that is no text ends the reading, as does
the end of the file while a line is open. -/
def joinLines (pending : List Char) (state : LineState) :
    List (Option String) → List (List Char)
  | [] => []
  | none :: _ => []
  | some line :: rest =>
      let text := pending ++ line.toList
      if (text.dropWhile isWhiteSpace).head? = some '#' then joinLines [] .complete rest
      else
        match scanLine state [] line.toList with
        | (kept, none) => (pending ++ kept) :: joinLines [] .complete rest
        | (_, some .complete) => dropLineEnd text :: joinLines [] .complete rest
        | (_, some state) => joinLines text state rest

/-! Values. -/

/-- A reference that is being read. -/
inductive Reference where
  | none
  /-- After a dollar sign. -/
  | bare
  /-- In braces. -/
  | braced
deriving DecidableEq, Repr

structure ValueState where
  single : Bool := false
  double : Bool := false
  escaped : Bool := false
  /-- Only a comment may follow. -/
  ended : Bool := false
  /-- In a comment. -/
  comment : Bool := false
  reference : Reference := .none
  name : List Char := []
  done : List Char := []

namespace ValueState

def push (s : ValueState) (c : Char) : ValueState := { s with done := c :: s.done }

/-- Puts the value of the variable that was named, if there is one. -/
def resolve (env : Variables) (s : ValueState) : ValueState :=
  let value := (env.get? (String.ofList s.name.reverse)).getD ""
  { s with reference := .none, name := [], done := value.toList.reverse ++ s.done }

def unescape? (s : ValueState) (c : Char) : Option ValueState :=
  let s := { s with escaped := false }
  match c with
  | '\\' => some (s.push c)
  | '\'' => some (s.push c)
  | '"' => some (s.push c)
  | '$' => some (s.push c)
  | ' ' => some (s.push c)
  | 'n' => some (s.push '\n')
  | _ => none

def refer (env : Variables) (s : ValueState) (c : Char) : ValueState :=
  if isWordlike c then { s with name := c :: s.name }
  else if s.reference = .braced then
    if c == '\x7d' then s.resolve env else { s with name := c :: s.name }
  else if c == '\x7b' && s.name.isEmpty then { s with reference := .braced }
  else
    let s := s.resolve env
    if c == '$' then { s with reference := .bare } else s.push c

/-- Outside of references, escapes and single quotes. -/
def plain (s : ValueState) (c : Char) : ValueState :=
  if c == '$' then { s with reference := .bare }
  else if c == '\\' then { s with escaped := true }
  else if s.double then if c == '"' then { s with double := false } else s.push c
  else if c == '\'' then { s with single := true }
  else if c == '"' then { s with double := true }
  else if c == ' ' || c == '\t' then { s with ended := true }
  else s.push c

def step (env : Variables) (s : ValueState) (c : Char) : Option ValueState :=
  if s.comment then some s
  else if s.ended then
    if c == ' ' || c == '\t' then some s
    else if c == '#' then some { s with comment := true }
    else none
  else if s.escaped then s.unescape? c
  else if s.single then some (if c == '\'' then { s with single := false } else s.push c)
  else if s.reference ≠ .none then some (s.refer env c)
  else some (s.plain c)

def finish (env : Variables) (s : ValueState) : Option String :=
  if s.reference = .braced || s.single || s.double then none
  else some (String.ofList (s.resolve env).done.reverse)

end ValueState

def value? (env : Variables) (cs : List Char) : Option String :=
  (cs.foldlM (ValueState.step env) {}).bind (ValueState.finish env)

/-! Lines. -/

def startsName (c : Char) : Bool := c.isAlpha || c == '_'

def isNameChar (c : Char) : Bool := c.isAlphanum || c == '_' || c == '.'

def name? : List Char → Option (String × List Char)
  | [] => none
  | c :: cs =>
      if startsName c then
        some (String.ofList (c :: cs.takeWhile isNameChar), cs.dropWhile isNameChar)
      else none

def skip (cs : List Char) : List Char := cs.dropWhile isWhiteSpace

def equals? (cs : List Char) : Option (List Char) :=
  match skip cs with
  | '=' :: cs => some cs
  | _ => none

/-- The name before the equals sign. The word `export` may stand before it. -/
def assigned? (cs : List Char) : Option (String × List Char) := do
  let (name, cs) ← name? cs
  match equals? cs with
  | some rest => return (name, rest)
  | none =>
      if name == "export" then
        let (name, cs) ← name? (skip cs)
        return (name, ← equals? cs)
      else none

/-- A line sets a variable or nothing; `none` if it cannot be read. -/
def line? (env : Variables) (line : List Char) : Option (Option (String × String)) :=
  let cs := skip (line.reverse.dropWhile isWhiteSpace).reverse
  if cs.isEmpty || cs.head? = some '#' then some none
  else do
    let (name, cs) ← assigned? cs
    let cs := skip cs
    if cs.isEmpty || cs.head? = some '#' then return some (name, "")
    return some (name, ← value? env cs)

def addLines (env : Variables) : List (List Char) → Variables
  | [] => env
  | line :: rest =>
      match line? env line with
      | none => env
      | some none => addLines env rest
      | some (some (name, value)) => addLines (env.addNew name value) rest

def splitLines (line : List UInt8) : List UInt8 → List (List UInt8)
  | [] => if line.isEmpty then [] else [line.reverse]
  | b :: rest =>
      if b = 10 then (b :: line).reverse :: splitLines [] rest else splitLines (b :: line) rest

def byteOrderMark : List UInt8 := [0xEF, 0xBB, 0xBF]

/-- Adds the variables of a file. Those that are set already keep their values. -/
def load (file : ByteArray) (env : Variables) : Variables :=
  let bytes := file.toList
  let bytes := if byteOrderMark.isPrefixOf bytes then bytes.drop 3 else bytes
  let lines := (splitLines [] bytes).map fun line => String.fromUTF8? ⟨line.toArray⟩
  addLines env (joinLines [] .complete lines)

end PackEngine.DotEnv
