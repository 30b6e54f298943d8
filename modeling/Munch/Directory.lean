import Munch.Byte.Table
import Munch.Failure

/-!
# A directory of files

The files that a program can see from the directory it runs in, and what the
operating system answers when a path leads to none of them. A path is followed
part by part, so of several faults the first one on the way counts.

The directory is flat: it holds files and no directories. Of what lies outside
of it only the directories above, the directories that every system has at its
root, and the null device are known. A file made elsewhere is made without being
seen.
-/

namespace Munch

/-- Why the operating system refuses to open a file. -/
inductive Refusal where
  | notFound
  | notDirectory
  | isDirectory
  | nameTooLong
  | nulInName
  deriving DecidableEq, Repr

namespace Refusal

/-- The text the operating system gives. -/
def message : Refusal → String
  | .notFound => "No such file or directory (os error 2)"
  | .notDirectory => "Not a directory (os error 20)"
  | .isDirectory => "Is a directory (os error 21)"
  | .nameTooLong => "File name too long (os error 36)"
  | .nulInName => "file name contained an unexpected NUL byte"

/-- The failure of an operation that was refused. -/
def failure (refusal : Refusal) : Failure :=
  .io refusal.message

end Refusal

/-- Files by name, in the order in which they were made. -/
structure Directory where
  files : List (String × Bytes)
  /-- The number of directories above, the root included. -/
  depth : Nat := 2
  deriving DecidableEq

namespace Directory

/-- The contents of the file with a name. -/
def find? (directory : Directory) (name : String) : Option Bytes :=
  directory.files.lookup name

/-- Give a file its contents, making it if it is not there. -/
def store (directory : Directory) (name : String) (contents : Bytes) : Directory :=
  if (directory.find? name).isSome then
    { directory with
      files := directory.files.map fun file =>
        if file.1 = name then (name, contents) else file }
  else
    { directory with files := directory.files ++ [(name, contents)] }

/-- A directory on the way of a path. -/
inductive Folder where
  /-- The directory itself. -/
  | here
  /-- A directory above it, by its distance from the root. -/
  | above (distance : Nat)
  /-- A directory at the root, by its name. -/
  | system (name : String)
  deriving DecidableEq, Repr

/-- What a name leads to. -/
inductive Entry where
  | folder (folder : Folder)
  | file (name : String)
  | null
  /-- Nothing: a file of this name can be made in the directory itself. -/
  | vacant (name : String)
  /-- Nothing: a file can be made, but in some other directory. -/
  | elsewhere
  deriving DecidableEq, Repr

/-- The greatest number of bytes in a file name. -/
def nameLimit : Nat := 255

/-- Paths have fewer bytes than this. -/
def pathLimit : Nat := 4096

/-- The directories that every system has at its root. -/
def systemFolders : List String :=
  ["bin", "boot", "dev", "etc", "home", "lib", "media", "mnt", "opt", "proc", "root", "run",
    "sbin", "srv", "sys", "tmp", "usr", "var"]

/-- The directory above another one. The root is above itself. -/
def parent (directory : Directory) : Folder → Folder
  | .here => .above (directory.depth - 1)
  | .above distance => .above (distance - 1)
  | .system _ => .above 0

/-- What a name leads to within a directory. -/
def lookup (directory : Directory) (folder : Folder) (name : String) :
    Except Refusal Entry :=
  if name = "." then .ok (.folder folder)
  else if name = ".." then .ok (.folder (directory.parent folder))
  else if nameLimit < name.utf8ByteSize then .error .nameTooLong
  else
    match folder with
    | .here => .ok (if (directory.find? name).isSome then .file name else .vacant name)
    | .above distance =>
        .ok (if distance = 0 ∧ name ∈ systemFolders then .folder (.system name) else .elsewhere)
    | .system folder => .ok (if folder = "dev" ∧ name = "null" then .null else .elsewhere)

/-- The directory that names lead to, one by one. -/
def enter (directory : Directory) : Folder → List String → Except Refusal Folder
  | folder, [] => .ok folder
  | folder, name :: names => do
      match ← directory.lookup folder name with
      | .folder folder => directory.enter folder names
      | .file _ => .error .notDirectory
      | .null => .error .notDirectory
      | .vacant _ => .error .notFound
      | .elsewhere => .error .notFound

/-- A path taken apart: where it begins, the names on its way, its last name if it
has any, and whether a slash follows that. -/
structure Route where
  root : Bool
  way : List String
  last : Option String
  slash : Bool
  deriving DecidableEq, Repr

/-- Take a path apart. -/
def Route.ofPath (path : String) : Route :=
  let parts := path.splitOn "/"
  let names := parts.filter (· ≠ "")
  { root := parts.head? = some ""
    way := names.dropLast
    last := names.getLast?
    slash := parts.getLast? = some "" }

/-- The route of a path, unless no path can look like that. -/
def route (path : String) : Except Refusal Route :=
  if path.toList.contains '\x00' then .error .nulInName
  else if path = "" then .error .notFound
  else if pathLimit ≤ path.utf8ByteSize then .error .nameTooLong
  else .ok (.ofPath path)

/-- The directory that holds the last name of a route. -/
def holder (directory : Directory) (route : Route) : Except Refusal Folder :=
  directory.enter (if route.root then .above 0 else .here) route.way

/-- The contents of the file that a path leads to. -/
def read (directory : Directory) (path : String) : Except Refusal Bytes := do
  let route ← route path
  let folder ← directory.holder route
  match route.last with
  | none => .error .isDirectory
  | some name =>
      match ← directory.lookup folder name with
      | .folder _ => .error .isDirectory
      | .file name =>
          if route.slash then .error .notDirectory else .ok ((directory.find? name).getD [])
      | .null => if route.slash then .error .notDirectory else .ok []
      | .vacant _ => .error .notFound
      | .elsewhere => .error .notFound

/-- Write a file at a path, in place of the one that is there. A path with a slash
at its end cannot be the name of a file, whatever the name. -/
def write (directory : Directory) (path : String) (contents : Bytes) :
    Except Refusal Directory := do
  let route ← route path
  let folder ← directory.holder route
  match route.last with
  | none => .error .isDirectory
  | some name =>
      if route.slash then .error .isDirectory
      else
        match ← directory.lookup folder name with
        | .folder _ => .error .isDirectory
        | .file name => .ok (directory.store name contents)
        | .vacant name => .ok (directory.store name contents)
        | .null => .ok directory
        | .elsewhere => .ok directory

end Directory

end Munch
