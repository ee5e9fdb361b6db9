import PackEngine.Engine.Error
import PackEngine.Files
import PackEngine.Pack.Document

/-! Packs: the functions and tags of a document under their full names. -/
namespace PackEngine

inductive PackError where
  | io (path : String) (fault : FileFault)
  | json (fault : DocumentFault)
  | toml
  | unsupportedFormat (path : String)
  | invalidId (fault : FunctionId.Fault)
  | unknownTagMember (tag : FunctionId) (member : String)
deriving DecidableEq, Repr

def PackError.message : PackError → String
  | .io path fault => "Failed to read " ++ path ++ ": " ++ fault.message
  | .json fault => "Invalid JSON pack: " ++ fault.message
  | .toml => "Invalid TOML pack: the text is no pack"
  | .unsupportedFormat path =>
      "Unsupported pack format for " ++ path ++ " (expected .json or .toml)"
  | .invalidId fault => fault.message
  | .unknownTagMember tag member =>
      "Tag #" ++ tag.render ++ " references unknown function " ++ member

/-- Entries are listed by namespace, then path. -/
structure Pack where
  functions : List (FunctionId × FunctionDef) := []
  tags : List (FunctionId × List FunctionId) := []

namespace Pack

def definition? (pack : Pack) (id : FunctionId) : Option FunctionDef :=
  valueAt? id pack.functions

def functionIds (pack : Pack) : List FunctionId := pack.functions.map (·.1)

def parseName (text : String) : Except PackError FunctionId :=
  (FunctionId.parse text).mapError .invalidId

/-- Entries are taken in the order of their keys; of two keys that name the same function the
later one stays. -/
def addFunctions (sorted : List (FunctionId × FunctionDef)) :
    List (String × FunctionDef) → Except PackError (List (FunctionId × FunctionDef))
  | [] => .ok sorted
  | (key, definition) :: rest => do
      let id ← parseName key
      addFunctions (insertSorted id definition sorted) rest

def tagMembers (functions : List (FunctionId × FunctionDef)) (tag : FunctionId) :
    List String → Except PackError (List FunctionId)
  | [] => .ok []
  | text :: rest => do
      let id ← parseName text
      if functions.any (·.1 == id) then
        let others ← tagMembers functions tag rest
        return id :: others
      else throw (.unknownTagMember tag text)

def addTags (functions : List (FunctionId × FunctionDef))
    (sorted : List (FunctionId × List FunctionId)) :
    List (String × List String) → Except PackError (List (FunctionId × List FunctionId))
  | [] => .ok sorted
  | (key, texts) :: rest => do
      let tag ← parseName key
      let ids ← tagMembers functions tag texts
      addTags functions (insertSorted tag ids sorted) rest

/-- Every member of every tag is one of the functions. -/
def ofDocument (document : PackDocument) : Except PackError Pack := do
  let functions ← addFunctions [] document.functions
  let tags ← addTags functions [] document.tags
  return ⟨functions, tags⟩

def ofJsonText (text : String) : Except PackError Pack :=
  match PackDocument.ofJsonText text with
  | .ok document => ofDocument document
  | .error fault => .error (.json fault)

def ofTomlText (text : String) : Except PackError Pack :=
  match PackDocument.ofTomlText? text with
  | some document => ofDocument document
  | none => .error .toml

/-- Files are read before their format is looked at. -/
def ofFile (path : String) (contents : Except FileFault FileContents) :
    Except PackError Pack :=
  match asText contents with
  | .error fault => .error (.io path fault)
  | .ok text =>
      match FilePath.extension? path with
      | some "json" => ofJsonText text
      | some "toml" => ofTomlText text
      | _ => .error (.unsupportedFormat path)

end Pack

end PackEngine
