import UiScript.Catalog
import UiScript.Catalog.Builtin
import UiScript.Json.Document
import UiScript.Json.Written

/-!
# Settings

What a project can set: which commands there are, whether variables fall back to the environment, the names of the two
comparison helpers that compiled scripts call, and the extension of script files. Settings are kept in a JSON document;
`Settings.parse?` reads one and `Settings.text` writes one.
-/

namespace UiScript

open Text

/-- The settings of a project, with their defaults. -/
structure Settings where
  environmentFallback : Bool := true
  commands : List String := builtinCommands
  allowUnknown : Bool := false
  arrayHelper : String := "compareArrayLike"
  jsonHelper : String := "compareJson"
  extension : String := "goml"
deriving DecidableEq, Repr

instance : Inhabited Settings := ⟨{}⟩

namespace Settings

/-- The catalog of the commands that a script may use. -/
def catalog (s : Settings) : Catalog := if s.allowUnknown then .any else .known (.ofList s.commands)

/-! ## Validity -/

/-- Why settings cannot be used. -/
inductive Invalid where
  | emptyArrayHelper | emptyJsonHelper | emptyExtension | noCommands
deriving DecidableEq, Repr, Inhabited

/-- The wording of the reason. -/
def Invalid.message : Invalid → String
  | emptyArrayHelper => "array_helper must not be empty"
  | emptyJsonHelper => "json_helper must not be empty"
  | emptyExtension => "extension must not be empty"
  | noCommands => "commands must not be empty unless allow_unknown_commands is set"

/-- Whether a text has nothing but blanks. -/
def isBlankText (text : String) : Bool := text.toList.all isBlank

/-- The first reason why the settings cannot be used. -/
def invalid? (s : Settings) : Option Invalid :=
  if isBlankText s.arrayHelper then some .emptyArrayHelper
  else if isBlankText s.jsonHelper then some .emptyJsonHelper
  else if isBlankText s.extension then some .emptyExtension
  else if !s.allowUnknown && s.commands.isEmpty then some .noCommands
  else none

/-! ## Fields -/

/-- The fields of a settings document, in the order in which they are written. -/
inductive Field where
  | environmentFallback | commands | allowUnknown | arrayHelper | jsonHelper | extension
deriving DecidableEq, Repr, Inhabited

namespace Field

/-- Every field. -/
def all : List Field := [environmentFallback, commands, allowUnknown, arrayHelper, jsonHelper, extension]

/-- The name of a field in a document. -/
def name : Field → String
  | environmentFallback => "environment_fallback"
  | commands => "commands"
  | allowUnknown => "allow_unknown_commands"
  | arrayHelper => "array_helper"
  | jsonHelper => "json_helper"
  | extension => "extension"

/-- The field of a name. -/
def ofName? (name : String) : Option Field := all.find? (·.name == name)

end Field

/-- A string of a document. -/
def stringOf? : Document → Option String
  | .string ps => (Document.decode? ps).map String.ofList
  | _ => none

/-- A list of strings of a document. -/
def stringsOf? : Document → Option (List String)
  | .array items => items.mapM stringOf?
  | _ => none

/-- A truth value of a document. -/
def boolOf? : Document → Option Bool
  | .bool b => some b
  | _ => none

/-- The settings with one field set from a document of the right type. -/
def assign? (s : Settings) (field : Field) (d : Document) : Option Settings :=
  match field with
  | .environmentFallback => (boolOf? d).map fun b => { s with environmentFallback := b }
  | .commands => (stringsOf? d).map fun names => { s with commands := names }
  | .allowUnknown => (boolOf? d).map fun b => { s with allowUnknown := b }
  | .arrayHelper => (stringOf? d).map fun t => { s with arrayHelper := t }
  | .jsonHelper => (stringOf? d).map fun t => { s with jsonHelper := t }
  | .extension => (stringOf? d).map fun t => { s with extension := t }

/-! ## Reading -/

/-- Settings from the members of an object. A field that is not there keeps its default, one that is there twice is a
mistake, and a member of another name is not looked at. -/
def ofMembers? (seen : List Field) (s : Settings) : List DocumentMember → Option Settings
  | [] => some s
  | .mk pieces d :: ms => do
    let cs ← Document.decode? pieces
    match Field.ofName? (String.ofList cs) with
    | none => ofMembers? seen s ms
    | some field =>
      if seen.contains field then none
      else
        let next ← s.assign? field d
        ofMembers? (field :: seen) next ms

/-- Settings from the items of an array, which are the fields in order. -/
def ofItems? (s : Settings) : List Field → List Document → Option Settings
  | _, [] => some s
  | [], _ :: _ => none
  | field :: fields, d :: ds => do
    let next ← s.assign? field d
    ofItems? next fields ds

/-- Settings from a document. -/
def ofDocument? : Document → Option Settings
  | .object members => ofMembers? [] {} members
  | .array items => ofItems? {} Field.all items
  | _ => none

/-- Settings from the text of a document. -/
def parse? (text : String) : Option Settings := (Document.parse? text).bind ofDocument?

/-! ## Writing -/

/-- The document of the settings. -/
def toJson (s : Settings) : Json :=
  .object [
    .mk Field.environmentFallback.name (.bool s.environmentFallback),
    .mk Field.commands.name (.array (s.commands.map .string)),
    .mk Field.allowUnknown.name (.bool s.allowUnknown),
    .mk Field.arrayHelper.name (.string s.arrayHelper),
    .mk Field.jsonHelper.name (.string s.jsonHelper),
    .mk Field.extension.name (.string s.extension)]

/-- The text of the settings' document. -/
def text (s : Settings) : String := s.toJson.pretty 0

end Settings

end UiScript
