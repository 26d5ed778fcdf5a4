/-
# Files by path

The tool reads the files that its command line names, and `Files` is how it gets at
them. A `Folder` holds files by name. `Folder.read` finds a file by its path from
there, as an operating system does: names are divided by slashes and followed one
after the other, an empty name or a dot stays, and two dots go up. Only folders can
be left through a slash, so that a file with a slash behind it is refused.

The folder is one of those for temporary files. Outside of it nothing is known but
what every system has: the folders below the root, and the device that is always
empty.
-/

import Statechart.Bytes.LittleEndian

namespace Statechart.Cli

/-- Why a file cannot be read. -/
inductive ReadError
  | notFound
  /-- A path goes on behind a file. -/
  | notDirectory
  | isDirectory
  | nameTooLong
  | notText
  | other (reason : String)
  deriving DecidableEq, Repr

namespace ReadError

/-- The reason as the operating system gives it. -/
def message : ReadError → String
  | notFound => "No such file or directory (os error 2)"
  | notDirectory => "Not a directory (os error 20)"
  | isDirectory => "Is a directory (os error 21)"
  | nameTooLong => "File name too long (os error 36)"
  | notText => "stream did not contain valid UTF-8"
  | other reason => reason

end ReadError

/-- How the tool gets at files. -/
abbrev Files := String → Except ReadError Bytes

/-- The folders that a path can pass through. -/
inductive Directory
  /-- The folder that paths start in. -/
  | working
  | root
  | temporary
  | devices
  /-- Another folder below the root. -/
  | system
  deriving DecidableEq, Repr

/-- Where a path leads. -/
inductive Place
  | directory (directory : Directory)
  | file (contents : Bytes)
  deriving DecidableEq, Repr

namespace Directory

/-- The folder above. The root is above itself. -/
def above : Directory → Directory
  | working => temporary
  | root | temporary | devices | system => root

/-- The folders of a system besides those for temporary files and for devices. -/
def systemNames : List String :=
  ["bin", "etc", "home", "lib", "media", "mnt", "opt", "proc", "run", "sbin", "srv", "sys",
    "usr", "var"]

/-- The folder below the root that has this name. -/
def ofName? (name : String) : Option Directory :=
  if name = "tmp" then some temporary
  else if name = "dev" then some devices
  else if name ∈ systemNames then some system
  else none

end Directory

/-- Files by name, and no folders. -/
structure Folder where
  files : List (String × Bytes)

namespace Folder

/-- Bytes that a name has at most. -/
def maxNameSize : Nat := 255

/-- Bytes that a path has at most. -/
def maxPathSize : Nat := 4095

/-- What has this name in a directory. -/
def find? (folder : Folder) (directory : Directory) (name : String) : Option Place :=
  match directory with
  | .working => (folder.files.lookup name).map .file
  | .root => (Directory.ofName? name).map .directory
  | .devices => if name = "null" then some (.file []) else none
  | .temporary | .system => none

/-- Follow one name of a path. -/
def follow (folder : Folder) (place : Place) (name : String) : Except ReadError Place :=
  match place with
  | .file _ => .error .notDirectory
  | .directory directory =>
      if name = "" || name = "." then .ok place
      else if name = ".." then .ok (.directory directory.above)
      else if maxNameSize < name.utf8ByteSize then .error .nameTooLong
      else
        match folder.find? directory name with
        | some found => .ok found
        | none => .error .notFound

/-- What a path leads to. -/
def locate (folder : Folder) (path : String) : Except ReadError Place :=
  if path.isEmpty then .error .notFound
  else if maxPathSize < path.utf8ByteSize then .error .nameTooLong
  else
    let start := if path.startsWith "/" then Directory.root else .working
    (path.splitOn "/").foldlM folder.follow (.directory start)

/-- The contents of the file that a path leads to. -/
def read (folder : Folder) : Files := fun path => do
  match ← folder.locate path with
  | .file contents => return contents
  | .directory _ => throw .isDirectory

/-- A path cannot go on behind a file. -/
theorem follow_file (folder : Folder) (contents : Bytes) (name : String) :
    folder.follow (.file contents) name = .error .notDirectory :=
  rfl

/-- Within the limit for names, a name leads to the file that has it. -/
theorem follow_of_lookup {folder : Folder} {name : String} {contents : Bytes}
    (plain : name ≠ "" ∧ name ≠ "." ∧ name ≠ "..")
    (short : name.utf8ByteSize ≤ maxNameSize)
    (listed : folder.files.lookup name = some contents) :
    folder.follow (.directory .working) name = .ok (.file contents) := by
  simp [follow, find?, plain, listed, Nat.not_lt.mpr short]

end Folder

end Statechart.Cli
