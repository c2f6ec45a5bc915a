import UiScript.Cli

/-!
# The program

Carries the files that the arguments name into a disk value, runs the command line on it and writes what it says.
-/

namespace UiScript.Cli

/-- Copies what a path leads to, up to a number of levels. -/
def copyIn (directory : Path) (path : String) : Nat → Disk → IO Disk
  | 0, d => pure d
  | levels + 1, d => do
    let place := (← IO.currentDir) / path
    if ← place.isDir then
      let mut copy := d.makeFolder directory path
      for entry in ← place.readDir do
        copy ← copyIn directory (Path.join path entry.fileName) levels copy
      pure copy
    else if ← place.pathExists then return d.putFile directory path (← IO.FS.readBinFile place)
    else pure d

end UiScript.Cli

/-- Runs the program. -/
def main (args : List String) : IO UInt32 := do
  let here ← IO.currentDir
  let directory : UiScript.Path := (UiScript.Path.normalize? ⟨[]⟩ here.toString).getD ⟨[]⟩
  let named := (UiScript.Cli.Arguments.parse? {} (args.drop 1)).getD {}
  let mut disk := UiScript.Disk.makeFolder ⟨[]⟩ directory directory.text
  for path in named.path.getD "scripts" :: named.config.toList do
    disk ← UiScript.Cli.copyIn directory path 256 disk
  let outcome := UiScript.Cli.run { directory, disk } args
  IO.print outcome.output
  IO.eprint outcome.errors
  return outcome.exitCode.toUInt32
