import UiScript.Path

/-!
# Files and folders

A disk as a value: which files and folders there are and what the files hold. Reading fails in the ways in which an
operating system's does, and every failure has its cause.
-/

namespace UiScript

/-- What stands under a name. -/
inductive Item where
  | file (content : ByteArray)
  | folder
deriving Inhabited

/-- Why a file cannot be read or written. -/
inductive DiskError where
  /-- Nothing stands under the name. -/
  | notFound
  /-- A folder stands where a file is asked for. -/
  | isFolder
  /-- A file stands where a folder is asked for. -/
  | notFolder
  /-- The file does not hold text in UTF-8. -/
  | notText
  /-- No name can hold this character. -/
  | nulInName
  /-- A name or a whole path has more bytes than there is room for. -/
  | nameTooLong
deriving DecidableEq, Repr, Inhabited

/-- The wording of a failure. -/
def DiskError.message : DiskError → String
  | notFound => "No such file or directory (os error 2)"
  | isFolder => "Is a directory (os error 21)"
  | notFolder => "Not a directory (os error 20)"
  | notText => "stream did not contain valid UTF-8"
  | nulInName => "file name contained an unexpected NUL byte"
  | nameTooLong => "File name too long (os error 36)"

/-- The most bytes that a name can have. -/
def maxNameBytes : Nat := 255

/-- The most bytes that a path can have. -/
def maxPathBytes : Nat := 4095

/-- The files and folders below the root, which is a folder itself. -/
structure Disk where
  items : List (List String × Item)
deriving Inhabited

namespace Disk

/-- What stands at a place, given by the names from the root on. -/
def get? (d : Disk) (names : List String) : Option Item := if names.isEmpty then some .folder else d.items.lookup names

/-- The disk with something at a place, in place of what stood there. -/
def put (d : Disk) (names : List String) (item : Item) : Disk :=
  ⟨d.items.filter (·.1 != names) ++ [(names, item)]⟩

/-- Takes one segment of a path, which leads out of a folder. -/
def enter (d : Disk) (names : List String) (segment : String) : Except DiskError (List String) :=
  match d.get? names with
  | some .folder =>
    if maxNameBytes < segment.utf8ByteSize then .error .nameTooLong else .ok (Path.enter names segment)
  | some (.file _) => .error .notFolder
  | none => .error .notFound

/-- Goes from a place along the segments of a path. The first segment that cannot be taken decides. -/
def walk (d : Disk) (names : List String) : List String → Except DiskError (List String × Item)
  | [] =>
    match d.get? names with
    | some item => .ok (names, item)
    | none => .error .notFound
  | s :: ss =>
    match d.enter names s with
    | .ok next => d.walk next ss
    | .error e => .error e

/-- Where a path starts: at the root, or at the directory it is seen from. -/
def origin (directory : Path) (text : String) : List String := if Path.isAbsolute text then [] else directory.names

/-- Why a path is refused before anything is looked at. -/
def refusal? (text : String) : Option DiskError :=
  if text.toList.contains '\x00' then some .nulInName
  else if text = "" then some .notFound
  else if maxPathBytes < text.utf8ByteSize then some .nameTooLong
  else none

/-- Finds what a path leads to, seen from a directory. -/
def resolve (d : Disk) (directory : Path) (text : String) : Except DiskError (List String × Item) :=
  match refusal? text with
  | some e => .error e
  | none => d.walk (origin directory text) (Path.segments text)

/-- Whether a path leads to something. -/
def pathExists (d : Disk) (directory : Path) (text : String) : Bool :=
  match d.resolve directory text with
  | .ok _ => true
  | .error _ => false

/-- The text of the file that a path leads to. -/
def readText (d : Disk) (directory : Path) (text : String) : Except DiskError String :=
  match d.resolve directory text with
  | .error e => .error e
  | .ok (_, .folder) => .error .isFolder
  | .ok (_, .file content) =>
    match String.fromUTF8? content with
    | some s => .ok s
    | none => .error .notText

/-- Goes from a place along the segments of a path and makes a folder wherever nothing stands, also where the path turns
back later. -/
def makeWay (d : Disk) (names : List String) : List String → Disk × List String
  | [] => (d, names)
  | s :: ss =>
    let next := Path.enter names s
    match d.get? next with
    | some _ => d.makeWay next ss
    | none => (d.put next .folder).makeWay next ss

/-- Makes the folders that a path leads through and the one that it leads to. -/
def makeFolder (d : Disk) (directory : Path) (text : String) : Disk :=
  (d.makeWay (origin directory text) (Path.segments text)).1

/-- Puts a file where a path leads and makes the folders that it leads through. -/
def putFile (d : Disk) (directory : Path) (text : String) (content : ByteArray) : Disk :=
  let (made, names) := d.makeWay (origin directory text) (Path.segments text).dropLast
  made.put (Path.enter names ((Path.segments text).getLastD "")) (.file content)

/-- Takes away what a path leads to and all that is below it. -/
def remove (d : Disk) (directory : Path) (text : String) : Disk :=
  match d.resolve directory text with
  | .ok (names, _) => ⟨d.items.filter fun i => !names.isPrefixOf i.1⟩
  | .error _ => d

/-- Writes a file into a folder that is there. -/
def writeText (d : Disk) (directory : Path) (text content : String) : Except DiskError Disk :=
  match refusal? text with
  | some e => .error e
  | none =>
    match d.walk (origin directory text) (Path.segments text).dropLast with
    | .error e => .error e
    | .ok (names, _) =>
      match d.enter names ((Path.segments text).getLastD "") with
      | .error e => .error e
      | .ok place =>
        match d.get? place with
        | some .folder => .error .isFolder
        | _ => .ok (d.put place (.file content.toUTF8))

/-- The files below a folder, by the names that lead to them from it. -/
def filesBelow (d : Disk) (names : List String) : List (List String) :=
  d.items.filterMap fun (place, item) =>
    match item with
    | .file _ => if names.isPrefixOf place && names != place then some (place.drop names.length) else none
    | .folder => none

end Disk

end UiScript
