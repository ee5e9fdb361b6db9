/-! Function names: a namespace and a path, written `namespace:path`. -/
namespace PackEngine

namespace FunctionId

def isNamespaceChar (c : Char) : Bool :=
  ('a' ≤ c && c ≤ 'z') || ('0' ≤ c && c ≤ '9') || c == '_' || c == '.' || c == '-'

def isPathChar (c : Char) : Bool := isNamespaceChar c || c == '/'

def isNamespace (s : String) : Bool := !s.toList.isEmpty && s.toList.all isNamespaceChar

def isPath (s : String) : Bool := !s.toList.isEmpty && s.toList.all isPathChar

end FunctionId

/-- Every value is a well-formed name, so two that are written alike are equal. -/
structure FunctionId where
  nspace : String
  path : String
  nspace_ok : FunctionId.isNamespace nspace = true
  path_ok : FunctionId.isPath path = true
deriving DecidableEq, Repr

namespace FunctionId

def defaultNamespace : String := "minecraft"

/-- The part of a name that breaks the rules, and the name as it was put together. -/
inductive Fault where
  | nspace (id : String)
  | path (id : String)
deriving DecidableEq, Repr

def make (nspace path : String) : Except Fault FunctionId :=
  if hn : isNamespace nspace then
    if hp : isPath path then .ok ⟨nspace, path, hn, hp⟩
    else .error (.path (nspace ++ ":" ++ path))
  else .error (.nspace (nspace ++ ":" ++ path))

/-- The text before the first colon and the text after it. -/
def splitColon : List Char → Option (List Char × List Char)
  | [] => none
  | c :: cs =>
      if c == ':' then some ([], cs)
      else (splitColon cs).map fun (before, after) => (c :: before, after)

/-- A name without a colon is a path in the default namespace. -/
def parse (text : String) : Except Fault FunctionId :=
  match splitColon text.toList with
  | some (before, after) => make (String.ofList before) (String.ofList after)
  | none => make defaultNamespace text

def render (id : FunctionId) : String := id.nspace ++ ":" ++ id.path

instance : Ord FunctionId where
  compare a b := (compare a.nspace b.nspace).then (compare a.path b.path)

end FunctionId

end PackEngine
