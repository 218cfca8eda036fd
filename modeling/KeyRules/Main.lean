import KeyRules.CommandLine.Run

/-!
# The program

Reads the files that a run may ask for, runs, and carries out what the run says.
-/

namespace KeyRules.CommandLine

def readContents (path : String) : IO Config.Contents := do
  try
    return Config.decodeText (← IO.FS.readBinFile path)
  catch
    | .inappropriateType none _ _ => return .error .isDirectory
    | .inappropriateType (some _) _ _ => return .error .notDirectory
    | .invalidArgument .. => return .error .nameTooLong
    | _ => return .error .notFound

/-- The paths that a run may read. -/
def pathsOf (home : Option String) : Request → List String
  | .run o => [configPath home o, karabinerPath home o].filterMap Except.toOption
  | _ => []

/-- Writes a file whose text has changed. -/
def writeChanged (path : String) (before after : Config.Contents) : IO Unit :=
  match before, after with
  | .ok old, .ok new => if old = new then pure () else IO.FS.writeFile path new
  | _, _ => pure ()

def shownMessages (home : Option String) (files : Files) : Request → List Message
  | .run o => (reports home files o).filter fun m => m.level.reaches (shownLevel o)
  | _ => []

end KeyRules.CommandLine

open KeyRules KeyRules.CommandLine

def main (arguments : List String) : IO UInt32 := do
  let home ← IO.getEnv "HOME"
  let request := readArguments arguments
  let known ← (pathsOf home request).mapM fun path => do return (path, ← readContents path)
  let files : Files := fun path => (known.lookup path).getD (.error .notFound)
  let outcome := run home files arguments
  for m in shownMessages home files request do
    IO.eprintln m.line
  for (path, before) in known do
    writeChanged path before (outcome.files path)
  IO.print outcome.stdout
  IO.eprint outcome.stderr
  return outcome.code.toUInt32
