import PackEngine.Toml.Value

/-! Building a document from its statements. A table may be opened by one header only, and a key
be set once; the way a table came to be decides who may still add to it. -/
namespace PackEngine

/-- How a table came to be. -/
inductive TableOrigin where
  /-- By its own header, or written out in braces. -/
  | opened
  /-- By a header that names a table inside it. -/
  | implied
  /-- By a dotted key. -/
  | dotted
deriving DecidableEq, Repr

inductive TomlTree where
  | leaf (value : Toml)
  | table (origin : TableOrigin) (entries : List (String × TomlTree))
  /-- A list of tables, the last one first. -/
  | tables (items : List (List (String × TomlTree)))
deriving Inhabited

inductive TomlStatement where
  | openTable (path : List String)
  | openItem (path : List String)
  | assign (path : List String) (value : Toml)

namespace TomlTree

abbrev Branches := List (String × TomlTree)

mutual

def toToml : TomlTree → Toml
  | .leaf value => value
  | .table _ entries => .table (branchesToToml entries)
  | .tables items => .arr (itemsToToml [] items)

def branchesToToml : List (String × TomlTree) → List (String × Toml)
  | [] => []
  | (key, tree) :: rest => (key, tree.toToml) :: branchesToToml rest

def itemsToToml (done : List Toml) : List (List (String × TomlTree)) → List Toml
  | [] => done
  | entries :: rest => itemsToToml (.table (branchesToToml entries) :: done) rest

end

/-- Changes the table at the end of a path, creating the tables on the way that are missing. A
list of tables stands for its last one. Dotted keys cannot enter a table that was opened. -/
def descend (created : TableOrigin) (change : TableOrigin → Branches → Option Branches) :
    List String → TableOrigin → Branches → Option Branches
  | [], origin, entries => change origin entries
  | key :: path, _, entries =>
      match valueAt? key entries with
      | none => do
          let inner ← descend created change path created []
          return putEntry key (.table created inner) entries
      | some (.leaf _) => none
      | some (.table origin inner) =>
          if created = .dotted && origin = .opened then none
          else do
            let inner ← descend created change path origin inner
            return putEntry key (.table origin inner) entries
      | some (.tables []) => none
      | some (.tables (last :: before)) => do
          let last ← descend created change path .opened last
          return putEntry key (.tables (last :: before)) entries

/-- Sets a key for the first time. A dotted key ends in a table made by dotted keys, a plain one
does not. -/
def setLeaf (isDotted : Bool) (key : String) (value : Toml) (origin : TableOrigin)
    (entries : Branches) : Option Branches :=
  if isDotted && origin ≠ .dotted then none
  else if (valueAt? key entries).isSome then none
  else some (putEntry key (.leaf value) entries)

def setPath (path : List String) (value : Toml) (origin : TableOrigin) (entries : Branches) :
    Option Branches :=
  match path.getLast? with
  | none => none
  | some key => descend .dotted (setLeaf (1 < path.length) key value) path.dropLast origin entries

/-- An implied table moves to the end when its own header comes. -/
def openTable (key : String) (_ : TableOrigin) (entries : Branches) : Option Branches :=
  match valueAt? key entries with
  | none => some (entries ++ [(key, .table .opened [])])
  | some (.table .implied inner) =>
      some (entries.filter (·.1 != key) ++ [(key, .table .opened inner)])
  | some _ => none

def openItem (key : String) (_ : TableOrigin) (entries : Branches) : Option Branches :=
  match valueAt? key entries with
  | none => some (putEntry key (.tables [[]]) entries)
  | some (.tables items) => some (putEntry key (.tables ([] :: items)) entries)
  | some _ => none

end TomlTree

/-- A document that is being built, and the path of the table that is open. -/
structure TomlDraft where
  entries : TomlTree.Branches := []
  path : List String := []

namespace TomlDraft

open TomlTree

def header (change : String → TableOrigin → Branches → Option Branches) (path : List String)
    (draft : TomlDraft) : Option TomlDraft := do
  let key ← path.getLast?
  let entries ← descend .implied (change key) path.dropLast .opened draft.entries
  return ⟨entries, path⟩

def step (draft : TomlDraft) : TomlStatement → Option TomlDraft
  | .openTable path => draft.header TomlTree.openTable path
  | .openItem path => draft.header TomlTree.openItem path
  | .assign path value => do
      let entries ← descend .implied (setPath path value) draft.path .opened draft.entries
      return { draft with entries }

end TomlDraft

/-- The value that statements build, if none of them contradicts an earlier one. -/
def Toml.ofStatements? (statements : List TomlStatement) : Option Toml :=
  (statements.foldlM TomlDraft.step {}).map fun draft =>
    .table (TomlTree.branchesToToml draft.entries)

end PackEngine
