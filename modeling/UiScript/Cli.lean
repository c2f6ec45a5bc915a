import UiScript.Loader
import UiScript.Preparation

/-!
# The command line

`script-check [path] [--config file]` checks all scripts below a path and reports what is wrong with them. The run is a
function of the directory, the disk and the arguments; `main` only carries them in and the two texts out.
-/

namespace UiScript.Cli

/-- What a run leaves behind: its exit code and what it writes to the two outputs. -/
structure Outcome where
  exitCode : Nat
  output : String
  errors : String
deriving DecidableEq, Repr, Inhabited

/-- The arguments of a check. -/
structure Arguments where
  path : Option String := none
  config : Option String := none
deriving DecidableEq, Repr, Inhabited

/-! ## Arguments -/

/-- The arguments with a settings file, of which there is at most one. -/
def Arguments.withConfig? (a : Arguments) (file : String) : Option Arguments :=
  if a.config.isSome then none else some { a with config := some file }

/-- The arguments with a path, of which there is at most one. -/
def Arguments.withPath? (a : Arguments) (path : String) : Option Arguments :=
  if a.path.isSome then none else some { a with path := some path }

/-- The value that is written right after an option, with or without an equals sign. -/
def attached (cs : List Char) : String :=
  match cs with
  | '=' :: value => String.ofList value
  | value => String.ofList value

/-- Reads the arguments of a check. -/
def Arguments.parse? (a : Arguments) : List String → Option Arguments
  | [] => some a
  | arg :: rest =>
    if arg = "--" then
      match rest with
      | [] => some a
      | [path] => a.withPath? path
      | _ => none
    else if arg = "-c" ∨ arg = "--config" then
      match rest with
      | [] => none
      | file :: more => (a.withConfig? file).bind (parse? · more)
    else
      match arg.toList with
      | '-' :: '-' :: 'c' :: 'o' :: 'n' :: 'f' :: 'i' :: 'g' :: '=' :: file =>
        (a.withConfig? (String.ofList file)).bind (parse? · rest)
      | '-' :: 'c' :: file => (a.withConfig? (attached file)).bind (parse? · rest)
      | '-' :: _ :: _ => none
      | _ => (a.withPath? arg).bind (parse? · rest)

/-! ## Files -/

/-- Whether names come in order, compared one after the other. -/
def namesLe : List String → List String → Bool
  | [], _ => true
  | _ :: _, [] => false
  | a :: as, b :: bs => if a = b then namesLe as bs else decide (a < b)

/-- The paths of the scripts below a path: the path itself if it is a file, else the files of the extension in order. -/
def scriptFiles (w : Workplace) (root extension : String) : List String :=
  match w.disk.resolve w.directory root with
  | .error _ => []
  | .ok (_, .file _) => [root]
  | .ok (names, .folder) =>
    let isScript (file : List String) : Bool := (file.getLast?.bind Path.extension?) == some extension
    let files := ((w.disk.filesBelow names).filter isScript).mergeSort namesLe
    files.map fun file => file.foldl Path.join root

/-! ## The check -/

/-- What a check has found so far. -/
structure Findings where
  unreadable : List LoadError := []
  reports : List (String × Diagnostics) := []

/-- Checks the scripts one by one. -/
def checkFiles (l : Loader) (w : Workplace) : List String → Findings
  | [] => {}
  | file :: files =>
    let (loaded, next) := w.load l file
    let later := checkFiles l next files
    match loaded with
    | .error e => { later with unreadable := e :: later.unreadable }
    | .ok s =>
      let scope := Scope.ofSettings l.settings ⟨[]⟩
      { later with reports := (file, s.check scope l.settings) :: later.reports }

namespace Findings

/-- The diagnostics of all scripts. -/
def diagnostics (f : Findings) : Diagnostics := f.reports.flatMap (·.2)

/-- How much is wrong. -/
def errorCount (f : Findings) : Nat := f.unreadable.length + f.diagnostics.length

/-- How many diagnostics are fatal. -/
def fatalCount (f : Findings) : Nat := f.diagnostics.fatalCount

/-- The report on a number of scripts. -/
def render (f : Findings) (files : Nat) : String :=
  String.join (f.unreadable.map fun e => "[ERROR] " ++ e.message ++ "\n") ++
  "─────────────────────────────────────────────────────\n" ++
  "检查完成: " ++ toString files ++ " 个脚本\n\n" ++
  String.join (f.reports.map fun (file, diagnostics) =>
    String.join (diagnostics.map fun d => file ++ ": " ++ d.render ++ "\n")) ++
  "\n" ++
  if 0 < f.errorCount then
    "❌ " ++ toString f.errorCount ++ " 个错误（其中 " ++ toString f.fatalCount ++ " 个致命）\n"
  else "✅ 检查通过，无错误\n"

end Findings

/-- A run that fails. -/
def failure (before message : String) : Outcome := ⟨1, "", before ++ "xtask error: " ++ message ++ "\n"⟩

/-- A failure to get settings, with the cause that lies below it. -/
def settingsFailure (e : SettingsError) : String :=
  match e with
  | .disk cause => e.message ++ ": " ++ cause.message
  | _ => e.message

/-- Checks all scripts below a path. -/
def check (w : Workplace) (a : Arguments) : Outcome :=
  let loader : Except SettingsError Loader :=
    match a.config with
    | some file => Loader.ofFile w.disk w.directory file
    | none => .ok {}
  match loader with
  | .error e => failure "" (settingsFailure e)
  | .ok l =>
    let root := a.path.getD "scripts"
    if w.disk.pathExists w.directory root then
      let files := scriptFiles w root l.settings.extension
      if files.isEmpty then ⟨0, "", "未找到脚本文件（." ++ l.settings.extension ++ "）\n"⟩
      else
        let findings := checkFiles l w files
        let report := "==> 检查 " ++ toString files.length ++ " 个脚本文件...\n\n" ++ findings.render files.length
        if 0 < findings.errorCount then failure report "脚本检查发现错误" else ⟨0, "", report⟩
    else failure "" ("路径不存在: " ++ root ++ "\n请在 workspace 根目录运行，或指定脚本路径")

/-- Runs the program with its arguments. -/
def run (w : Workplace) : List String → Outcome
  | "script-check" :: rest =>
    match Arguments.parse? {} rest with
    | some a => check w a
    | none => ⟨2, "", "usage: script-check [path] [--config file]\n"⟩
  | _ => ⟨2, "", "usage: script-check [path] [--config file]\n"⟩

end UiScript.Cli
