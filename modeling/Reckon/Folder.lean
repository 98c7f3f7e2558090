/-!
# Paths and folders

The parts of a path are separated by slashes. Empty parts and single dots mean nothing, and two dots
lead one folder up; paths are followed by their parts alone, whether the folders on the way exist or
not. A `Folder` is the folder that a command works in, with all that is below it.
-/

namespace Reckon

namespace Path

/-- The parts of a path that mean something. -/
def parts (path : String) : List String :=
  (path.splitOn "/").filter fun p => p ≠ "" && p ≠ "."

/-- What an absolute path begins with. Two slashes are kept apart from one; more are as good as
one. -/
def root (path : String) : String :=
  match path.toList with
  | '/' :: '/' :: '/' :: _ => "/"
  | '/' :: '/' :: _ => "//"
  | '/' :: _ => "/"
  | _ => ""

/-- A path without the parts that mean nothing. -/
def normalized (path : String) : String :=
  let text := root path ++ "/".intercalate (parts path)
  if text = "" then "." else text

/-- Where a path leads, as seen from a folder. -/
inductive Target
  /-- To the folder itself or below it. -/
  | inside (parts : List String)
  /-- To a folder that holds the folder. -/
  | above
  /-- Anywhere else. -/
  | outside
deriving DecidableEq, Repr

/-- Follows parts from the place that is `up` folders above a folder and then `down` from there; the
last part of `down` comes first. -/
def follow (up : Nat) (down : List String) : List String → Nat × List String
  | [] => (up, down.reverse)
  | ".." :: rest =>
    match down with
    | [] => follow (up + 1) [] rest
    | _ :: down => follow up down rest
  | part :: rest => follow up (part :: down) rest

/-- A path on which two dots stand only where they lead above the start. -/
def resolved (path : String) : String :=
  let (up, down) := follow 0 [] (parts path)
  let up := if root path = "" then up else 0
  normalized (root path ++ "/".intercalate (List.replicate up ".." ++ down))

/-- Where a path leads. The root is above every folder. -/
def target (path : String) : Target :=
  match follow 0 [] (parts path), root path with
  | (0, down), "" => .inside down
  | (_, []), _ => .above
  | _, _ => .outside

end Path

/-- Why a file cannot be read. -/
inductive ReadFailure
  | noSuchFile
  | isFolder
  | notAFolder
  /-- Any other reason, as the system words it. -/
  | other (reason : String)
deriving DecidableEq, Repr

/-- The wording of a failure. -/
def ReadFailure.reason : ReadFailure → String
  | noSuchFile => "No such file or directory"
  | isFolder => "Is a directory"
  | notAFolder => "Not a directory"
  | other reason => reason

/-- Something in a folder. -/
structure FolderEntry where
  /-- Where it is, as seen from the folder. -/
  path : List String
  /-- The bytes of a file; a folder has none. -/
  content : Option (List UInt8)
deriving DecidableEq, Repr

/-- A folder and all that is below it; the folders on the way to an entry are there too. -/
structure Folder where
  /-- What is in the folder. -/
  entries : List FolderEntry
deriving DecidableEq, Repr

namespace Folder

/-- The file at a place; the latest entry counts. -/
def file? (f : Folder) (place : List String) : Option (List UInt8) :=
  (f.entries.reverse.find? fun e => e.path = place).bind FolderEntry.content

/-- Whether there is a folder at a place. -/
def hasFolder (f : Folder) (place : List String) : Bool :=
  place = [] || f.entries.any fun e =>
    place.isPrefixOf e.path && (e.path ≠ place || e.content.isNone)

/-- Reads the file at a place. -/
def readAt (f : Folder) (place : List String) : Except ReadFailure (List UInt8) :=
  if (List.range place.length).any fun n => (f.file? (place.take n)).isSome then
    .error .notAFolder
  else match f.file? place with
    | some bytes => .ok bytes
    | none => if f.hasFolder place then .error .isFolder else .error .noSuchFile

/-- Reads the file that a path leads to. -/
def read (f : Folder) (path : String) : Except ReadFailure (List UInt8) :=
  match Path.target path with
  | .inside place => f.readAt place
  | .above => .error .isFolder
  | .outside => .error .noSuchFile

end Folder

end Reckon
