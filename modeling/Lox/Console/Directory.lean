/-
  The files that a command line can name, and the ways in
  which reading one can fail.

  A path is looked up name by name, from the root if it begins
  with a slash and from the directory of the command line if
  not. Empty names and single dots are skipped, so that a path
  may end with a slash, and two dots lead to the directory
  around; the root lies in itself. Of what lies outside the
  directory of the command line, only the places are known
  that every machine has.

  Key definitions include:
    * `ReadFault`
    * `Content`
    * `Directory`
    * `usualPlaces`
    * `Directory.follow`
    * `Directory.read`
-/

------------------------------------------------------------
-- Failures
------------------------------------------------------------

namespace Lox.Console

/-
  Why a file cannot be read; a system may have reasons of its
  own.
-/
inductive ReadFault where
  | missing
  | isDirectory
  | notDirectory
  | nameTooLong
  | other (reason : String)
deriving DecidableEq, Repr

/- The wording of a failure to read a file. -/
def ReadFault.message : ReadFault → String
  | missing => "No such file or directory"
  | isDirectory => "Is a directory"
  | notDirectory => "Not a directory"
  | nameTooLong => "File name too long"
  | other reason => reason

end Lox.Console

------------------------------------------------------------
-- Directories
------------------------------------------------------------

namespace Lox.Console

/- What a path leads to. -/
inductive Content where
  | file (bytes : List UInt8)
  | directory
deriving DecidableEq, Repr

/- Paths, as lists of names, with their contents. -/
abbrev Directory :=
  List (List String × Content)

/- The greatest number of bytes of a name and of a path. -/
def maxNameBytes : Nat := 255

def maxPathBytes : Nat := 4095

/- The names of a path that say where it leads. -/
def properNames (path : String) : List String :=
  (path.splitOn "/").filter fun name =>
    name ≠ "" && name ≠ "."

/- The slashes that a path keeps at its beginning. -/
def rootOf (path : String) : String :=
  match path.toList with
  | '/' :: '/' :: '/' :: _ => "/"
  | '/' :: '/' :: _ => "//"
  | '/' :: _ => "/"
  | _ => ""

/- The path without what does not say where it leads. -/
def plainPath (path : String) : String :=
  rootOf path ++ "/".intercalate (properNames path)

namespace Directory

/- A directory of files with given paths. -/
def ofList (files : List (String × Content)) : Directory :=
  files.map fun (path, content) => (properNames path, content)

/-
  What stands at a place in the directory. A place is a
  directory also when it has something in it.
-/
def find? (d : Directory) (place : List String) :
    Option Content :=
  match d.lookup place with
  | some content => some content
  | none =>
      if place.isEmpty || d.any fun (path, _) =>
          place.isPrefixOf path then
        some .directory
      else none

/-
  What names lead to from a place, which is given by the names
  to it in reverse.
-/
def follow (d : Directory) :
    (place : List String) → (names : List String) →
    Except ReadFault Content
  | place, [] =>
      match d.find? place.reverse with
      | some content => .ok content
      | none => .error .missing
  | place, name :: names =>
      match d.find? place.reverse with
      | none => .error .missing
      | some (.file _) => .error .notDirectory
      | some .directory =>
          if name = ".." then d.follow place.tail names
          else if maxNameBytes < name.utf8ByteSize then
            .error .nameTooLong
          else d.follow (name :: place) names

end Directory

end Lox.Console

------------------------------------------------------------
-- The Whole Machine
------------------------------------------------------------

namespace Lox.Console

/- Places that every machine has, by their full paths. -/
def usualPlaces : Directory :=
  [ (["dev", "null"], .file []), (["bin"], .directory),
    (["etc"], .directory), (["home"], .directory),
    (["lib"], .directory), (["opt"], .directory),
    (["proc"], .directory), (["run"], .directory),
    (["sbin"], .directory), (["sys"], .directory),
    (["tmp"], .directory), (["usr", "bin"], .directory),
    (["usr", "lib"], .directory), (["usr", "local"], .directory),
    (["usr", "share"], .directory), (["var", "lib"], .directory),
    (["var", "log"], .directory), (["var", "tmp"], .directory) ]

/-
  The place of the directory of the command line. Its own name
  is not known, and the empty one here is one that no path can
  spell.
-/
def workPlace : List String :=
  ["tmp", ""]

namespace Directory

/- All that is known of a machine, given the directory. -/
def machine (d : Directory) : Directory :=
  let files := d.map fun (path, content) =>
    (workPlace ++ path, content)
  (workPlace, .directory) :: files ++ usualPlaces

/-
  The bytes of the file that a path names. The length of the
  path counts as it is without what leads nowhere.
-/
def read
    (d : Directory)
    (path : String) :
    Except ReadFault (List UInt8) :=
  if maxPathBytes < (plainPath path).utf8ByteSize then
    .error .nameTooLong
  else
    let start := if rootOf path = "" then workPlace else []
    match d.machine.follow start.reverse (properNames path) with
    | .error fault => .error fault
    | .ok .directory => .error .isDirectory
    | .ok (.file bytes) => .ok bytes

end Directory

end Lox.Console
