import TraceWeaving.Command.Tool

/-!
# The command line program

Reads the variables and the document that a request needs and prints the outcome.
-/

namespace TraceWeaving
namespace Command

def variableNames : List String :=
  ["SCRIBE_TRACE_VALUE_CHANGE", "SCRIBE_TRACE_ON_ERROR", "SCRIBE_TRACE_RETURNING",
   "SCRIBE_ANNOTATED_ONLY", "SCRIBE_RUNTIME_CLASS"]

def readVariables : IO (List (String × String)) := do
  let found ← variableNames.mapM fun name => do
    return (← IO.getEnv name).map fun value => (name, value)
  return found.filterMap id

def readDocument (path : String) : IO (Option String) := do
  try
    return some (← IO.FS.readFile path)
  catch _ =>
    return none

def requestedPath : Request → Option String
  | .version => none
  | .instrument path _ _ => some path
  | .run path _ _ _ _ => some path

def Failure.report (f : Failure) : String :=
  "Error: " ++ f.message ++ String.join (f.causes.map fun cause => "\n    " ++ cause)

def usage : String :=
  "usage: scribe instrument UNIT [--emit source|json] [SWITCHES]\n"
    ++ "       scribe run UNIT --class C --method M [--arg INT].. [SWITCHES]\n"
    ++ "       scribe --version\n"
    ++ "switches: --annotated-only --no-value-changes --no-errors --no-returning"

end Command
end TraceWeaving

open TraceWeaving in
def main (args : List String) : IO UInt32 := do
  let environment ← Command.readVariables
  let path := (Command.request? args).bind Command.requestedPath
  let document ← match path with
    | some path => Command.readDocument path
    | none => pure none
  match Command.execute args (fun name => environment.lookup name) (fun _ => document) with
  | .success output =>
      IO.println output
      return 0
  | .failure f =>
      IO.eprintln f.report
      return 1
  | .usageError =>
      IO.eprintln Command.usage
      return 2
