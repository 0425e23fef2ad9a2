import ChainIndex.Command.Grammar
import ChainIndex.Config.File
import ChainIndex.Text.Decimal

/-!
# The command line of the index service

The subcommands with their arguments, and the options that every subcommand takes.  An option of the
subcommand counts before the same option in front of it, and both before the environment.
-/

namespace ChainIndex.Command

/-- What the program is told to do. -/
inductive Job where
  | reindex (fromBlock : UInt64) (toBlock chunkSize : Option UInt64) (addresses : List String)
  | reprocess (addresses : List String) (all : Bool)
  | fetchTransactions (hashes : List String)
  | fetchBlock (hash : String)
  | confirmBlocks
  | info
  deriving DecidableEq

/-- Settings given on the command line or by the environment, which count before those of a file. -/
structure Overrides where
  nodeUrl : Option String := none
  database : Option String := none
  network : Option Network := none
  reorgDepth : Option UInt64 := none
  logLevel : Option String := none
  jsonLogs : Bool := false
  deriving DecidableEq

/-- A whole command line. -/
structure Invocation where
  /-- The file of settings. -/
  file? : Option String
  overrides : Overrides
  job : Job
  deriving DecidableEq

/-- Whether a text is an unsigned 64-bit integer. -/
def isWord (s : String) : Bool := (Text.word? s).isSome

/-- Whether a text names a kind of network. -/
def isNetwork (s : String) : Bool :=
  match Network.parse s with
  | .ok _ => true
  | .error _ => false

/-- The options that every level takes. -/
def commonOptions : List Opt := [
  { name := "config", accepts := fun s => !s.isEmpty },
  { name := "node-url" },
  { name := "db" },
  { name := "network-mode", accepts := isNetwork },
  { name := "reorg-depth", accepts := isWord },
  { name := "log-level" },
  { name := "json-logs", takesValue := false }]

def programLevel : Level where
  options := commonOptions
  version := true
  subcommands := ["reindex", "reprocess", "fetch-tx", "fetch-block", "confirm-blocks", "info"]

/-- An option with an address, which may be given more than once. -/
def addressOption : Opt := { name := "address", repeatable := true }

def subcommandLevel : String → Level
  | "reindex" => {
      options := [{ name := "from", accepts := isWord }, { name := "to", accepts := isWord },
        { name := "chunk-size", accepts := isWord }, addressOption] ++ commonOptions }
  | "reprocess" => {
      options := [addressOption, { name := "all", takesValue := false }] ++ commonOptions }
  | "fetch-tx" => { options := commonOptions, words := .many }
  | "fetch-block" => { options := commonOptions, words := .one }
  | _ => { options := commonOptions }

/-- The job of a subcommand, if all that it needs was given. -/
def jobOf? (name : String) (r : Read) : Option Job :=
  match name with
  | "reindex" => do
    let fromBlock ← r.value? "from" >>= Text.word?
    return .reindex fromBlock (r.value? "to" >>= Text.word?) (r.value? "chunk-size" >>= Text.word?)
      (r.values "address")
  | "reprocess" =>
    if r.has "address" == r.has "all" then none
    else some (.reprocess (r.values "address") (r.has "all"))
  | "fetch-tx" => if r.words.isEmpty then none else some (.fetchTransactions r.words)
  | "fetch-block" => r.words.head?.map .fetchBlock
  | "confirm-blocks" => some .confirmBlocks
  | "info" => some .info
  | _ => none

/-- Reads a command line.  `environment` gives the values of environment variables. -/
def Invocation.parse (environment : String → Option String) (words : List String) :
    Except Halt Invocation := do
  let (program, name, sub) ← readLine programLevel subcommandLevel words
  let some job := jobOf? name sub | throw .malformed
  let value? (option : String) := sub.value? option <|> program.value? option
  return {
    file? := value? "config"
    overrides := {
      nodeUrl := value? "node-url" <|> environment "SAFEINDEX_NODE_URL"
      database := value? "db" <|> environment "SAFEINDEX_DB"
      network := value? "network-mode" >>= fun s => (Network.parse s).toOption
      reorgDepth := value? "reorg-depth" >>= Text.word?
      logLevel := value? "log-level"
      jsonLogs := sub.has "json-logs" || program.has "json-logs" }
    job }

def Overrides.apply (o : Overrides) (s : Settings) : Settings where
  config := { s.config with
    nodeUrl := o.nodeUrl.getD s.config.nodeUrl
    databaseUrl := o.database <|> s.config.databaseUrl
    network := o.network.getD s.config.network
    reorgDepth := o.reorgDepth.getD s.config.reorgDepth }
  logging := { s.logging with
    level := o.logLevel.getD s.logging.level
    json := o.jsonLogs || s.logging.json }

end ChainIndex.Command
