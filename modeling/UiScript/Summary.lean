import UiScript.Loader
import UiScript.Scope
import UiScript.Text.Visible

/-!
# Summaries

One-line descriptions of scopes, settings and loaders for logs.
-/

namespace UiScript

/-- A record with named parts. -/
def recordText (name : String) (parts : List (String × String)) (more : Bool) : String :=
  let texts := parts.map fun (part, text) => part ++ ": " ++ text
  name ++ " \x7b " ++ ", ".intercalate (if more then texts ++ [".."] else texts) ++ " \x7d"

/-- Which parts of a scope are there. -/
def Scope.summary (s : Scope) : String :=
  recordText "Variables"
    [("locals", boolText s.locals.isSome), ("globals", boolText s.globals.isSome),
      ("environment", boolText s.useEnvironment)] false

/-- All settings. -/
def Settings.summary (s : Settings) : String :=
  recordText "ScriptConfig"
    [(Field.environmentFallback.name, boolText s.environmentFallback),
      (Field.commands.name, "[" ++ ", ".intercalate (s.commands.map Text.visible) ++ "]"),
      (Field.allowUnknown.name, boolText s.allowUnknown),
      (Field.arrayHelper.name, Text.visible s.arrayHelper),
      (Field.jsonHelper.name, Text.visible s.jsonHelper),
      (Field.extension.name, Text.visible s.extension)] false

/-- The size of the cache that a loader works with, and its settings. -/
def Loader.summary (l : Loader) (cache : Cache) : String :=
  recordText "AstLoader" [("cache", toString cache.size), ("config", l.settings.summary)] true

end UiScript
