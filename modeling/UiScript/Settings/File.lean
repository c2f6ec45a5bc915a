import UiScript.Disk
import UiScript.Settings

/-!
# Settings files

Reading and writing the settings of a project. Settings that cannot be used count as a failure; `Settings.load` takes
the defaults instead of failing.
-/

namespace UiScript

/-- Why settings cannot be read or written. -/
inductive SettingsError where
  /-- The file cannot be read or written. -/
  | disk (error : DiskError)
  /-- The file does not hold a settings document. -/
  | document
  /-- The settings cannot be used. -/
  | invalid (reason : Settings.Invalid)
deriving DecidableEq, Repr, Inhabited

/-- The wording of a failure. -/
def SettingsError.message : SettingsError → String
  | disk error => "config io error: " ++ error.message
  | document => "config json error: not a settings document"
  | invalid reason => "invalid config: " ++ reason.message

namespace Settings

/-- The settings if they can be used. -/
def validated (s : Settings) : Except SettingsError Settings :=
  match s.invalid? with
  | some reason => .error (.invalid reason)
  | none => .ok s

/-- The settings that a text holds. -/
def ofText (text : String) : Except SettingsError Settings :=
  match parse? text with
  | some s => s.validated
  | none => .error .document

/-- Reads settings from a file. -/
def tryLoad (d : Disk) (directory : Path) (path : String) : Except SettingsError Settings :=
  match d.readText directory path with
  | .ok text => ofText text
  | .error e => .error (.disk e)

/-- Reads settings from a file; the defaults if that fails. -/
def load (d : Disk) (directory : Path) (path : String) : Settings :=
  match tryLoad d directory path with
  | .ok s => s
  | .error _ => {}

/-- Writes settings to a file. -/
def save (s : Settings) (d : Disk) (directory : Path) (path : String) : Except SettingsError Disk :=
  match d.writeText directory path s.text with
  | .ok d => .ok d
  | .error e => .error (.disk e)

end Settings

end UiScript
