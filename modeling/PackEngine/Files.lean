import PackEngine.Entries

/-! Reading files. Paths that do not begin with a slash start from the working directory; their
parts stand between slashes. Whoever runs a program supplies the way to read a file; a `FileTree`
is one that is held in memory. -/
namespace PackEngine

inductive FileFault where
  | missing
  | isDirectory
  | notDirectory
  | nameTooLong
  | nulInName
  | notText
  | other (reason : String)
deriving DecidableEq, Repr

/-- The system's words. -/
def FileFault.message : FileFault → String
  | .missing => "No such file or directory (os error 2)"
  | .isDirectory => "Is a directory (os error 21)"
  | .notDirectory => "Not a directory (os error 20)"
  | .nameTooLong => "File name too long (os error 36)"
  | .nulInName => "file name contained an unexpected NUL byte"
  | .notText => "stream did not contain valid UTF-8"
  | .other reason => reason

/-- What a file holds. A device can be read, but is no regular file. -/
structure FileContents where
  bytes : ByteArray
  regular : Bool := true

/-- A way to read files. -/
abbrev FileReader (m : Type → Type) := String → m (Except FileFault FileContents)

def asText (contents : Except FileFault FileContents) : Except FileFault String :=
  match contents with
  | .error fault => .error fault
  | .ok file =>
      match String.fromUTF8? file.bytes with
      | some text => .ok text
      | none => .error .notText

/-- The bytes of a regular file; anything else is passed over. -/
def regular? (contents : Except FileFault FileContents) : Option ByteArray :=
  match contents with
  | .ok file => if file.regular then some file.bytes else none
  | .error _ => none

namespace FilePath

def parts (path : String) : List String := path.splitOn "/"

/-- What follows the last dot of the last part, unless the dot begins it. -/
def extension? (path : String) : Option String :=
  match (((parts path).getLastD "").splitOn ".").reverse with
  | ext :: stem => if stem.all (· == "") && stem.length ≤ 1 then none else some ext
  | [] => none

/-- The path without the slashes and lone dots at its end. -/
def trimEnd (path : String) : String :=
  "/".intercalate ((parts path).reverse.dropWhile fun part => part == "" || part == ".").reverse

/-- The longest path and the longest part of one, in bytes. -/
def sizeLimit : Nat := 4095

def partLimit : Nat := 255

def join (directory name : String) : String :=
  if directory.isEmpty || directory.endsWith "/" then directory ++ name
  else directory ++ "/" ++ name

/-- The directory above the one that parts lead to. -/
def above (location : List String) : List String :=
  match location.getLast? with
  | none => [".."]
  | some ".." => location ++ [".."]
  | some _ => location.dropLast

variable {m : Type → Type} [Monad m]

/-- Whether parts lead through directories, or to places where directories can be made. -/
def canEnter (read : FileReader m) (start : String) (location : List String) :
    List String → m Bool
  | [] => return true
  | part :: rest => do
      if part == "" || part == "." then canEnter read start location rest
      else if part == ".." then canEnter read start (above location) rest
      else if partLimit < part.utf8ByteSize then return false
      else
        let location := location ++ [part]
        match ← read (start ++ "/".intercalate location) with
        | .error .missing => canEnter read start location rest
        | .error .isDirectory => canEnter read start location rest
        | _ => return false

/-- Whether a file can be written into a directory, making the directories on the way. -/
def canWrite (read : FileReader m) (directory name : String) : m Bool := do
  if directory.contains '\x00' || sizeLimit < (join directory name).utf8ByteSize then return false
  else canEnter read (if directory.startsWith "/" then "/" else "") [] (parts directory)

/-- The parts that remain when lone dots and steps up are carried out; `none` outside. -/
def settle (done : List String) : List String → Option (List String)
  | [] => some done
  | part :: rest =>
      if part == "" || part == "." then settle done rest
      else if part == ".." then if done.isEmpty then none else settle done.dropLast rest
      else settle (done ++ [part]) rest

/-- A relative path in its shortest form. -/
def normal? (path : String) : Option String :=
  if path.startsWith "/" then none else (settle [] (parts path)).map "/".intercalate

end FilePath

/-- Contents by location, counted from the root. The starts of locations are directories. -/
structure FileTree where
  files : List (List String × FileContents)
  directories : List (List String)
  /-- The working directory. -/
  here : List String

namespace FileTree

/-- Directories that every system has. -/
def systemDirectories : List (List String) :=
  ["bin", "dev", "etc", "home", "lib", "opt", "proc", "root", "run", "sbin", "srv", "sys", "tmp",
    "usr", "var"].map ([·])

def systemFiles : List (List String × FileContents) := [
  (["dev", "null"], ⟨ByteArray.empty, false⟩),
  (["etc", "hostname"], ⟨"localhost\n".toUTF8, true⟩),
  (["etc", "hosts"], ⟨"127.0.0.1 localhost\n".toUTF8, true⟩),
  (["etc", "passwd"], ⟨"root:x:0:0:root:/root:/bin/sh\n".toUTF8, true⟩)]

/-- A working directory with these files and no others. -/
def ofList (files : List (String × ByteArray)) : FileTree :=
  let here := ["tmp", "work"]
  let placed := files.filterMap fun (path, bytes) =>
    (FilePath.settle [] (FilePath.parts path)).map fun parts => (here ++ parts, ⟨bytes, true⟩)
  ⟨placed ++ systemFiles, systemDirectories, here⟩

def isDirectory (tree : FileTree) (location : List String) : Bool :=
  location.isPrefixOf tree.here || tree.directories.contains location ||
    tree.files.any fun (file, _) => location.isPrefixOf file && location != file

/-- Follows the parts of a path from a directory. Nothing is above the root. -/
def follow (tree : FileTree) (location : List String) :
    List String → Except FileFault FileContents
  | [] => .error .isDirectory
  | part :: rest =>
      if part == "" || part == "." then tree.follow location rest
      else if part == ".." then tree.follow location.dropLast rest
      else if FilePath.partLimit < part.utf8ByteSize then .error .nameTooLong
      else
        let inner := location ++ [part]
        match valueAt? inner tree.files with
        | some file => if rest.isEmpty then .ok file else .error .notDirectory
        | none => if tree.isDirectory inner then tree.follow inner rest else .error .missing

def read (tree : FileTree) (path : String) : Except FileFault FileContents :=
  if path.contains '\x00' then .error .nulInName
  else if path.isEmpty then .error .missing
  else if FilePath.sizeLimit < path.utf8ByteSize then .error .nameTooLong
  else tree.follow (if path.startsWith "/" then [] else tree.here) (FilePath.parts path)

end FileTree

end PackEngine
