import UiScript.Cache
import UiScript.Settings.File

/-!
# Loaders

A loader reads the scripts of a project with the commands that its settings name. Several loaders can work in one place
and share its cache; `Workplace.step` is one action there.
-/

namespace UiScript

/-- A reader of scripts with its settings. -/
structure Loader where
  settings : Settings := {}
deriving DecidableEq, Repr, Inhabited

/-- Why a script cannot be loaded. -/
inductive LoadError where
  /-- The file cannot be read. -/
  | unreadable (path : Path) (error : DiskError)
  /-- The empty path leads nowhere. -/
  | emptyPath
deriving DecidableEq, Repr, Inhabited

/-- The wording of a failure. -/
def LoadError.message : LoadError → String
  | unreadable path error => "failed to read script `" ++ path.text ++ "`: " ++ error.message
  | emptyPath => "invalid script path ``: cannot make an empty path absolute"

/-- Reads a script that is given as a text. -/
def Loader.parse (l : Loader) (text : String) : Script := .parse l.settings.catalog text

/-- A loader with the settings of a file. -/
def Loader.ofFile (d : Disk) (directory : Path) (path : String) : Except SettingsError Loader :=
  (Settings.tryLoad d directory path).map (⟨·⟩)

/-- Where loaders work: a directory, a disk and a cache. -/
structure Workplace where
  directory : Path
  disk : Disk
  cache : Cache := {}

instance : Inhabited Workplace := ⟨{ directory := default, disk := default }⟩

namespace Workplace

/-- The absolute form of a path. -/
def normalize (w : Workplace) (path : String) : Except LoadError Path :=
  match Path.normalize? w.directory path with
  | some p => .ok p
  | none => .error .emptyPath

/-- Loads a script: from the cache if its path is bound, else from the file, and then the path is bound. -/
def load (w : Workplace) (l : Loader) (path : String) : Except LoadError Script × Workplace :=
  match w.normalize path with
  | .error e => (.error e, w)
  | .ok p =>
    match w.cache.get? p with
    | some s => (.ok s, w)
    | none =>
      match w.disk.readText w.directory p.text with
      | .error e => (.error (.unreadable p e), w)
      | .ok text =>
        let (stored, cache) := w.cache.insertOnce p (l.parse text)
        (.ok stored, { w with cache })

/-- Binds the absolute form of a path to a script, unless it is bound already. A cache takes its paths as they are
(`Cache.insertOnce`) and leaves it to its caller to bring them into this form, so that is done here, as in `load`. -/
def insert (w : Workplace) (path : String) (s : Script) : Except LoadError Script × Workplace :=
  match w.normalize path with
  | .error e => (.error e, w)
  | .ok p =>
    let (stored, cache) := w.cache.insertOnce p s
    (.ok stored, { w with cache })

/-- What can happen at a workplace. -/
inductive Action where
  | load (loader : Loader) (path : String)
  | insert (path : String) (script : Script)
  | writeFile (path : String) (content : ByteArray)
  | makeFolder (path : String)
  | remove (path : String)

/-- One action: the script that it gives, if it gives one, and the workplace after it. -/
def step (w : Workplace) : Action → Option (Except LoadError Script) × Workplace
  | .load l path => let (r, w) := w.load l path; (some r, w)
  | .insert path s => let (r, w) := w.insert path s; (some r, w)
  | .writeFile path content => (none, { w with disk := w.disk.putFile w.directory path content })
  | .makeFolder path => (none, { w with disk := w.disk.makeFolder w.directory path })
  | .remove path => (none, { w with disk := w.disk.remove w.directory path })

/-- Several actions in a row. -/
def run (w : Workplace) : List Action → List (Option (Except LoadError Script)) × Workplace
  | [] => ([], w)
  | a :: as =>
    let (r, next) := w.step a
    let (rs, last) := next.run as
    (r :: rs, last)

end Workplace

end UiScript
