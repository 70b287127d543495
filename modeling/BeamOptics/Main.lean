import BeamOptics.Command.Program

/-!
The command line `beamenv`.

Reads the files that the arguments name, runs the program on them, and writes what it returns: the
report and the log to standard output, a failure to standard error.
-/

namespace BeamOptics.Command

def eventLine (e : Event) : String := e.level.name.toUpper ++ " " ++ e.target ++ ": " ++ e.message

def contents? (path : String) : IO (Option String) := do
  try
    return some (← IO.FS.readFile path)
  catch _ => return none

end BeamOptics.Command

open BeamOptics.Command in
def main (args : List String) : IO UInt32 := do
  let files ← (paths args).mapM fun path => return (path, ← contents? path)
  let outcome := run (fun path => (files.lookup path).join) args
  for o in outcome.output do
    match o with
    | .line s => IO.println s
    | .event e _ => IO.println (eventLine e)
  match outcome.failure with
  | some f => IO.eprintln ("Error: " ++ f.text)
  | none => pure ()
  return outcome.exitCode.toUInt32
