import ChainIndex.Command.Run
import ChainIndex.Rpc.Offline

/-!
# The program

Reads the command line, the environment and the file of settings, runs the command line, and puts out what
comes of it.  Databases last as long as the program runs, and no node is within reach.
-/

namespace ChainIndex.Command

def readFile (path : String) : IO FileContent := do
  try
    return .bytes (← IO.FS.readBinFile path)
  catch
    | .inappropriateType .. => return .directory
    | _ => return .missing

/-- The values of the environment variables that count. -/
def readEnvironment : IO (String → Option String) := do
  let node ← IO.getEnv "SAFEINDEX_NODE_URL"
  let database ← IO.getEnv "SAFEINDEX_DB"
  return fun name =>
    if name = "SAFEINDEX_NODE_URL" then node
    else if name = "SAFEINDEX_DB" then database
    else none

def namedFile (environment : String → Option String) (words : List String) : Option String :=
  match Invocation.parse environment words with
  | .ok i => i.file?
  | .error _ => none

/-- Runs a command line in the surroundings of the program. -/
def execute (words : List String) : IO UInt32 := do
  let environment ← readEnvironment
  let content ← match namedFile environment words with
    | some path => readFile path
    | none => pure .missing
  let setting : Setting Unit :=
    { environment, file := fun _ => content, disk := {}, transport := Rpc.offline, state := () }
  let (output, _) := run setting words
  IO.print output.stdout
  IO.eprint output.stderr
  return UInt32.ofNat output.exitCode

end ChainIndex.Command

/-- Runs the program with the words of its command line. -/
def main (words : List String) : IO UInt32 := ChainIndex.Command.execute words
