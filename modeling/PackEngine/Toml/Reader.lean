import PackEngine.Toml.Scalar
import PackEngine.Toml.Tree

/-! Reading whole documents. -/
namespace PackEngine

namespace TomlReader

def word (w : String) (value : Toml) : TomlReader Toml := fun cs =>
  if w.toList.isPrefixOf cs then some (value, cs.drop w.length) else none

def assigned (value : TomlReader Toml) : TomlReader Toml := fun cs =>
  match skipBlanks cs with
  | '=' :: cs => value (skipBlanks cs)
  | _ => none

/-- The items of an array through its closing bracket; a comma may follow the last one. -/
def arrayItems (value : TomlReader Toml) : Nat → List Toml → TomlReader Toml
  | 0, _, _ => none
  | fuel + 1, done, cs =>
      match skipFiller false cs with
      | ']' :: cs => some (.arr done.reverse, cs)
      | cs =>
          match value cs with
          | none => none
          | some (item, cs) =>
              match skipFiller false cs with
              | ',' :: cs => arrayItems value fuel (item :: done) cs
              | ']' :: cs => some (.arr (item :: done).reverse, cs)
              | _ => none

/-- The entries of a table in braces through its closing brace, all on one line. -/
def inlineEntries (limit : Nat) (value : TomlReader Toml) :
    Nat → List TomlStatement → TomlReader (List TomlStatement)
  | 0, _, _ => none
  | fuel + 1, done, cs =>
      match keyPath limit cs with
      | none => none
      | some (path, cs) =>
          match assigned value cs with
          | none => none
          | some (item, cs) =>
              match skipBlanks cs with
              | ',' :: cs => inlineEntries limit value fuel (.assign path item :: done) cs
              | '\x7d' :: cs => some ((TomlStatement.assign path item :: done).reverse, cs)
              | _ => none

def inlineTable (limit : Nat) (value : TomlReader Toml) : TomlReader Toml := fun cs =>
  match skipBlanks cs with
  | '\x7d' :: cs => some (.table [], cs)
  | cs => do
      let (entries, cs) ← inlineEntries limit value (limit + 1) [] cs
      let table ← Toml.ofStatements? entries
      return (table, cs)

/-- A value with fewer than `depth` nested arrays and tables. -/
def value (limit : Nat) : Nat → TomlReader Toml
  | 0, _ => none
  | depth + 1, cs =>
      match cs with
      | '"' :: cs => (string limit '"' cs).map fun (s, cs) => (.str s, cs)
      | '\'' :: cs => (string limit '\'' cs).map fun (s, cs) => (.str s, cs)
      | '[' :: cs =>
          if depth = 0 then none else arrayItems (value limit depth) (limit + 1) [] cs
      | '\x7b' :: cs => if depth = 0 then none else inlineTable limit (value limit depth) cs
      | 't' :: _ => word "true" (.bool true) cs
      | 'f' :: _ => word "false" (.bool false) cs
      | cs =>
          if startsDate cs || startsTime cs then (moment cs).map fun (m, cs) => (.moment m, cs)
          else number cs

def statement (limit : Nat) (cs : List Char) : Option (TomlStatement × List Char) := do
  match cs with
  | '[' :: '[' :: cs =>
      let (path, cs) ← keyPath limit cs
      match cs with
      | ']' :: ']' :: cs => return (.openItem path, cs)
      | _ => none
  | '[' :: cs =>
      let (path, cs) ← keyPath limit cs
      match cs with
      | ']' :: cs => return (.openTable path, cs)
      | _ => none
  | cs =>
      let (path, cs) ← keyPath limit cs
      let (item, cs) ← assigned (value limit depthLimit) cs
      return (.assign path item, cs)

/-- Statements, each on lines of its own; `fuel` bounds their number. -/
def statements (limit : Nat) : Nat → List TomlStatement → List Char → Option (List TomlStatement)
  | 0, _, _ => none
  | fuel + 1, done, cs =>
      match skipFiller false cs with
      | [] => some done.reverse
      | cs =>
          match statement limit cs with
          | none => none
          | some (found, cs) =>
              match lineEnd? cs with
              | none => none
              | some cs => statements limit fuel (found :: done) cs

end TomlReader

/-- The table that a document denotes. A byte order mark may stand before it. -/
def Toml.parse? (text : String) : Option Toml :=
  let cs :=
    match text.toList with
    | '\uFEFF' :: cs => cs
    | cs => cs
  (TomlReader.statements cs.length (cs.length + 1) [] cs).bind Toml.ofStatements?

end PackEngine
