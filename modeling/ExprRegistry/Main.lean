import ExprRegistry.Cli.Run

/-!
The command line. Files and environment variables are read before the program runs, and what it prints
and logs is written when it has ended. There is no transport: every request to a remote index is refused.
-/

namespace ExprRegistry.Cli

def usage : String :=
  "usage: gexreg [-h] [--loglevel LEVEL] [--logfile FILE] [-c FILE] [-o json|text] COMMAND"

def readInto (files : Files) (path : String) : IO Files := do
  try
    let text ← IO.FS.readFile path
    pure (files.put path text)
  catch _ => pure files

def readEnvironment : IO Fields := do
  let names := ["GEXREG_API_URL", "GEXREG_INDEX", "GEXREG_REQUEST_TIMEOUT"]
  let found ← names.mapM fun name => do
    let v ← IO.getEnv name
    pure (v.map fun v => (Scalar.str name, Json.str v))
  pure (found.filterMap id)

/-- Opens the file of the log for text to be added, if there is one that can be opened. -/
def openLog (file : Option String) : IO (Option IO.FS.Handle) := do
  match file.filter (!·.isEmpty) with
  | none => pure none
  | some path =>
    try
      let handle ← IO.FS.Handle.mk path .append
      pure (some handle)
    catch _ => pure none

end ExprRegistry.Cli

open ExprRegistry in
def main (words : List String) : IO UInt32 := do
  match Cli.Arguments.parse words with
  | .error .help =>
    IO.println Cli.usage
    pure 0
  | .error .wrong =>
    IO.eprintln Cli.usage
    pure 2
  | .ok arguments =>
    let log ← Cli.openLog arguments.logPath?
    let environment ← Cli.readEnvironment
    let paths := arguments.subject :: (arguments.configPath?.toList ++ arguments.logPath?.toList)
    let files ← paths.foldlM Cli.readInto []
    let settings :=
      (({} : Settings).configure arguments.settingFlags (.obj environment) files).settings
    let files ← Cli.readInto files settings.indexFile.display
    let traced := Cli.run arguments environment files (.ofScript [])
    IO.print traced.finished.output
    IO.eprint traced.errors
    match log with
    | some handle => handle.putStr (Cli.logText arguments.threshold traced.finished.log)
    | none => pure ()
    match traced.finished.exit with
    | .ok code => pure code.toUInt32
    | .error _ => pure 1
