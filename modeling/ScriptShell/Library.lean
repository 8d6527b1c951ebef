import ScriptShell.Table

/-!
# ScriptShell.Library

Where the texts of modules come from: a set of named texts, or the files below a directory. A
module of a directory is named by a path, which is followed the way an operating system follows it:
every component but the last must lead to a directory, `.` and empty components stay, `..` goes up,
and a path that ends in a directory has no text.

* `FileTree`: the files below a directory.
* `FileTree.read`: follow a path and read what it leads to.
* `Library`: a way to read modules. `Library.ofTexts`, `Library.ofTree`: the two kinds of it.
-/

namespace ScriptShell

/-- Why the text of a module cannot be read. -/
inductive ReadFault where
  | noSuchModule
  | noSuchFile
  | notDirectory
  | isDirectory
  | nameTooLong
  /-- A null character in a path. -/
  | nullInPath
  /-- The bytes of a file are no text. -/
  | notText
  /-- Any other reason of the operating system, in its words. -/
  | other (reason : String)
  deriving DecidableEq, Repr

/-- The words in which a reason is reported. -/
def ReadFault.message : ReadFault → String
  | .noSuchModule => "no such module"
  | .noSuchFile => "No such file or directory (os error 2)"
  | .notDirectory => "Not a directory (os error 20)"
  | .isDirectory => "Is a directory (os error 21)"
  | .nameTooLong => "File name too long (os error 36)"
  | .nullInPath => "file name contained an unexpected NUL byte"
  | .notText => "stream did not contain valid UTF-8"
  | .other reason => reason

/-- The components of a path, empty ones included. -/
def pathComponents (path : String) : List String :=
  (path.toList.splitOn '/').map String.ofList

/-- The files below a directory, each with the components of its path. -/
structure FileTree where
  files : List (List String × String)

namespace FileTree

/-- What stands at a path below the directory. -/
inductive Node where
  | file (text : String)
  | directory
  deriving DecidableEq, Repr

/-- The components of a plain path: `..` takes back the component before it. -/
def plainPath (components : List String) : List String :=
  components.foldl
    (fun dir c => if c = "" ∨ c = "." then dir else if c = ".." then dir.dropLast else dir ++ [c])
    []

/-- Write a file, replacing an earlier one of the same path. -/
def write (t : FileTree) (path text : String) : FileTree :=
  let components := plainPath (pathComponents path)
  ⟨(components, text) :: t.files.filter (fun f => f.1 ≠ components)⟩

/-- The directory with the given files, the later ones written last. -/
def ofList (files : List (String × String)) : FileTree :=
  files.foldl (fun t f => t.write f.1 f.2) ⟨[]⟩

/-- What stands at the given components. A directory is there because of the files in it. -/
def node? (t : FileTree) (components : List String) : Option Node :=
  match t.files.find? (fun f => f.1 = components) with
  | some f => some (.file f.2)
  | none =>
    if components = [] ∨ t.files.any (fun f => components.isPrefixOf f.1) then some .directory
    else none

/-- The longest name that a component may be, in bytes. -/
def maxNameBytes : Nat := 255

/-- The longest path that may be followed, in bytes, counted from the directory as `./`. -/
def maxPathBytes : Nat := 4095

/-- Follow a path from the directory `dir`, which is given by its components; `above` counts the
steps taken above the tree, where nothing is known to stand but directories. -/
def follow (t : FileTree) (dir : List String) (above : Nat) : List String →
    Except ReadFault Node
  | [] => .ok .directory
  | c :: cs =>
    if c = "" ∨ c = "." then t.follow dir above cs
    else if c = ".." then
      match dir with
      | [] => t.follow [] (above + 1) cs
      | _ :: _ => t.follow dir.dropLast above cs
    else if maxNameBytes < c.utf8ByteSize then .error .nameTooLong
    else if 0 < above then .error .noSuchFile
    else
      match t.node? (dir ++ [c]) with
      | none => .error .noSuchFile
      | some .directory => t.follow (dir ++ [c]) 0 cs
      | some (.file text) => if cs = [] then .ok (.file text) else .error .notDirectory

/-- Read the file that a path leads to. An absolute path leads out of the tree. -/
def read (t : FileTree) (path : String) : Except ReadFault String :=
  if path.toList.contains '\x00' then .error .nullInPath
  else if maxPathBytes < 2 + path.utf8ByteSize then .error .nameTooLong
  else
    match t.follow [] (if path.toList.head? = some '/' then 1 else 0) (pathComponents path) with
    | .ok (.file text) => .ok text
    | .ok .directory => .error .isDirectory
    | .error f => .error f

end FileTree

/-- Where the texts of modules come from. -/
structure Library where
  /-- The text of a module. -/
  read : String → Except ReadFault String

namespace Library

/-- The library of a set of named texts. -/
def ofTexts (texts : Table String) : Library :=
  ⟨fun module =>
    match texts.get? module with
    | some text => .ok text
    | none => .error .noSuchModule⟩

/-- The library of the files below a directory. -/
def ofTree (t : FileTree) : Library := ⟨t.read⟩

/-- The library of the modules whose reading has been tried; any other counts as missing. -/
def ofAnswers (answers : Table (Except ReadFault String)) : Library :=
  ⟨fun module => (answers.get? module).getD (.error .noSuchFile)⟩

/-- The library without modules. -/
def empty : Library := ofTexts .empty

instance : Inhabited Library := ⟨empty⟩

end Library
end ScriptShell
