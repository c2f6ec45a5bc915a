/-!
# Paths

A path is a text with slashes between its segments. `Path.normalize?` turns it into the one absolute form under which
scripts are cached: no empty segment, no `.` and no `..`. This is a matter of the text alone; no directory is looked at.
-/

namespace UiScript

/-- An absolute path: the names from the root on. -/
structure Path where
  names : List String
deriving DecidableEq, Repr, Inhabited

namespace Path

/-- The text of a path. -/
def text (p : Path) : String := "/" ++ "/".intercalate p.names

/-- The segments of a text between its slashes; the segment before a leading slash is empty. -/
def splitSlashes : List Char → List (List Char)
  | [] => [[]]
  | c :: cs =>
    if c = '/' then [] :: splitSlashes cs
    else
      match splitSlashes cs with
      | [] => [[c]]
      | s :: ss => (c :: s) :: ss

/-- The segments of a path. -/
def segments (text : String) : List String := (splitSlashes text.toList).map String.ofList

/-- Whether a path starts at the root. -/
def isAbsolute (text : String) : Bool := text.toList.head? == some '/'

/-- One more segment: an empty one and `.` change nothing, `..` takes away the last name. -/
def enter (names : List String) (segment : String) : List String :=
  if segment = "" ∨ segment = "." then names
  else if segment = ".." then names.dropLast
  else names ++ [segment]

/-- The absolute form of a path, seen from a directory. The empty path has none. -/
def normalize? (directory : Path) (text : String) : Option Path :=
  if text = "" then none
  else some ⟨(segments text).foldl enter (if isAbsolute text then [] else directory.names)⟩

/-- An absolute path taken as it is written, except for empty segments and `.`. -/
def asWritten? (text : String) : Option Path :=
  if isAbsolute text then some ⟨(segments text).filter fun s => s != "" && s != "."⟩ else none

/-- A path with one more name; no second slash is written after one. -/
def join (text name : String) : String := if text.toList.getLast? = some '/' then text ++ name else text ++ "/" ++ name

/-- What follows the last point of a file name, unless that point is its first character. -/
def extension? (name : String) : Option String :=
  let (last, before) := (name.toList.reverse.takeWhile (· != '.'), name.toList.reverse.dropWhile (· != '.'))
  match before with
  | [] | [_] => none
  | _ :: _ => if name = ".." then none else some (String.ofList last.reverse)

end Path

end UiScript
