import Offside.Text.CodePoint
import Offside.Text.Quoted
import Offside.Text.Utf8

namespace Offside

/-!
# Files and their paths

A path is a root and its parts.  Empty parts and parts that stay in place are left out;
a step to the parent is kept.
-/

/-- A path of a file. -/
structure Path where
  root : Text
  parts : List Text
deriving Repr, DecidableEq

namespace Path

/-- The parts of a text between slashes. -/
def split : Text → List Text
  | [] => [[]]
  | code :: rest =>
      if code = .scalar '/' then [] :: split rest
      else
        match split rest with
        | [] => [[code]]
        | part :: parts => (code :: part) :: parts

/-- The root of a path: nothing, one slash, or the two slashes that a system may give a
meaning of their own. -/
def rootOf : Text → Text
  | .scalar '/' :: .scalar '/' :: .scalar '/' :: _ => "/"
  | .scalar '/' :: .scalar '/' :: _ => "//"
  | .scalar '/' :: _ => "/"
  | _ => []

/-- The path that a text denotes. -/
def ofText (text : Text) : Path :=
  ⟨rootOf text, (split text).filter fun part => !part.isEmpty && part != [.scalar '.']⟩

/-- The text of a path. -/
def text (path : Path) : Text :=
  match path.root, path.parts with
  | [], [] => "."
  | root, parts => root ++ Text.join [.scalar '/'] parts

/-- The last part of a path. -/
def name (path : Path) : Text :=
  path.parts.getLast?.getD []

/-- A path inside another. -/
def append (path : Path) (parts : List Text) : Path :=
  { path with parts := path.parts ++ parts }

/-- The path with a tilde and the user's name behind it replaced by the home of that user,
if it starts so and there is such a home. -/
def expanded (path : Path) (homeOf : Text → Option Path) : Option Path :=
  match path.root, path.parts with
  | [], (.scalar '~' :: user) :: rest => (homeOf user).map (·.append rest)
  | _, _ => some path

end Path

/-!
## Files

What can be found at a path, and how the text of a file is read: as UTF-8, with every
line end as a line feed.
-/

/-- What is found at a path. -/
inductive FileEntry where
  | directory
  | file (bytes : List UInt8)
deriving Repr, DecidableEq

/-- Why an entry has no text. -/
inductive FileError where
  | directory (path : Text)
  | malformed (malformed : Utf8.Malformed)
deriving Repr, DecidableEq

namespace FileError

/-- The wording of an error. -/
def message : FileError → Text
  | .directory path => "[Errno 21] Is a directory: " ++ Text.dumped path
  | .malformed bytes => bytes.message

end FileError

namespace FileEntry

/-- The text of an entry at a path. -/
def text (path : Path) : FileEntry → Except FileError Text
  | .directory => .error (.directory path.text)
  | .file bytes =>
      match Utf8.decode bytes with
      | .ok text => .ok text.unifyLineEnds
      | .error malformed => .error (.malformed malformed)

end FileEntry

/-!
## File trees

A tree of directories and files below a working directory.  A directory stays when its
files are removed.
-/

/-- The files and the directories of a tree, by their parts below its top. -/
structure FileTree where
  files : List (List Text × List UInt8)
  directories : List (List Text)
deriving Repr, DecidableEq

namespace FileTree

/-- The tree with nothing in it. -/
def empty : FileTree :=
  ⟨[], []⟩

/-- The directories above a file. -/
def parents (parts : List Text) : List (List Text) :=
  (List.range parts.length).map (parts.take ·)

/-- Writes a file, with the directories above it. -/
def write (tree : FileTree) (path : Path) (bytes : List UInt8) : FileTree :=
  ⟨(path.parts, bytes) :: tree.files, parents path.parts ++ tree.directories⟩

/-- Removes a file. -/
def remove (tree : FileTree) (path : Path) : FileTree :=
  { tree with files := tree.files.filter (·.1 != path.parts) }

/-- What stands at parts below the top. -/
def at? (tree : FileTree) (parts : List Text) : Option FileEntry :=
  match tree.files.lookup parts with
  | some bytes => some (.file bytes)
  | none => if parts.isEmpty || tree.directories.contains parts then some .directory else none

/-- Walks on from a directory; the way leads through directories only and stays below
the top. -/
def walk (tree : FileTree) (place : List Text) : List Text → Option FileEntry
  | [] => tree.at? place
  | part :: rest =>
      match tree.at? place with
      | some .directory =>
          if part = [.scalar '.', .scalar '.'] then
            if place.isEmpty then none else walk tree place.dropLast rest
          else walk tree (place ++ [part]) rest
      | _ => none

/-- What stands at a path. -/
def find? (tree : FileTree) (path : Path) : Option FileEntry :=
  if path.root.isEmpty then tree.walk [] path.parts else none

end FileTree

end Offside
