import ChainIndex.Command.Arguments
import ChainIndex.Derived.Record
import ChainIndex.Ledger.Record
import ChainIndex.Provider
import ChainIndex.Reprocess
import ChainIndex.Rpc.Client

/-!
# Running a command line

A command line is run in a `Setting`: environment variables, files, databases and a way to reach nodes.
What comes out is an exit code with the texts for the two output streams.  A failure is reported with what
was being done and the cause.
-/

namespace ChainIndex.Command

/-- What a command line finds around it. -/
structure Setting (τ : Type) where
  environment : String → Option String
  file : String → FileContent
  disk : Disk
  /-- The way to the node at a URL. -/
  transport : String → Rpc.Transport τ
  /-- The state of that way. -/
  state : τ

/-- What a run puts out. -/
structure Output where
  exitCode : Nat
  stdout : String := ""
  stderr : String := ""
  deriving DecidableEq

/-- A failure: what was being done, and the cause. -/
structure Failure where
  doing : String
  cause : String
  deriving DecidableEq

/-- A text with every further line indented like the first. -/
def indented (text : String) : String := "\n".intercalate ((text.splitOn "\n").map ("    " ++ ·))

def Failure.report (f : Failure) : String :=
  "Error: " ++ f.doing ++ "\n\nCaused by:\n" ++ indented f.cause

/-- Notes what was being done when a fault came up. -/
def during {α : Type} (doing : String) (r : Except Fault α) : Except Failure α :=
  r.mapError fun fault => ⟨doing, fault.message⟩

def resolveSettings (file : String → FileContent) (i : Invocation) : Except Failure Settings := do
  let base ← match i.file? with
    | none => pure {}
    | some path => do
      let text ← (file path).text.mapError fun why => ⟨"reading config " ++ path, why⟩
      match Settings.reader.ofText? text with
      | some s => pure s
      | none => throw ⟨"parsing config " ++ path, unreadableSettings⟩
  let s := i.overrides.apply base
  during "invalid configuration" s.config.validate
  return s

def version : String := "0.2.0"

/-- A text with a line break at its end. -/
def line (s : String) : String := s ++ "\n"

def jsonLines (v : Json) : String := line v.pretty

/-- The settings and the numbers of rows. -/
def infoText (c : Config) (counts : Derived.Counts) : String :=
  line ("SafeIndex v" ++ version) ++
  line ("  Node:          " ++ c.nodeUrl) ++
  line ("  Network mode:  " ++ c.network.name) ++
  line ("  Reorg depth:   " ++ toString c.reorgDepth.toNat ++ " blocks") ++
  line ("  Reindex chunk: " ++ toString c.reindexChunkSize.toNat ++ " blocks") ++
  line ("  Store:         " ++ c.databaseUrl.getD "memory") ++
  line "" ++
  jsonLines counts.toJson

/-- What a job is called, and what is done for it to get what it prints. -/
def perform (c : Config) (job : Job) : String × Attempt String :=
  let service := c.service
  match job with
  | .reindex fromBlock toBlock chunkSize addresses =>
    ("reindexing", do
      let addresses := if addresses.isEmpty then none else some addresses
      let report ← service.reindex fromBlock toBlock chunkSize addresses
      return jsonLines report.toJson)
  | .reprocess addresses all =>
    ("reprocessing", do
      let summary ← if all then Reprocess.all else Reprocess.addresses addresses
      return jsonLines summary.toJson)
  | .fetchTransactions [hash] =>
    ("fetching transaction " ++ hash, do
      let row ← Resolve.transaction service.policy hash
      return jsonLines row.toJson)
  | .fetchTransactions hashes =>
    ("fetching transaction batch", do
      let rows ← Resolve.transactions service.policy hashes
      return jsonLines (.ofList Ledger.Transaction.toJson rows))
  | .fetchBlock hash =>
    ("fetching block " ++ hash, do
      let row ← Resolve.block service.policy hash
      return jsonLines row.toJson)
  | .confirmBlocks =>
    ("confirming blocks", do
      let n ← Resolve.confirmBlocks service.policy
      return line (toString n ++ " block(s) confirmed"))
  | .info =>
    ("reading row counts", do
      let counts ← Access.counts.perform
      return infoText c counts)

/-- What is printed to somebody who asks for help, or does not write a command line. -/
def usage : String := line "Usage: safeindex [OPTIONS] <COMMAND>"

variable {τ : Type}

/-- Does a job with settings that were found sound. -/
def runJob (s : Setting τ) (c : Config) (job : Job) : Except Failure String × Setting τ :=
  match s.disk.openStore c.databaseUrl with
  | (.error fault, disk) => (.error ⟨"opening store", fault.message⟩, { s with disk })
  | (.ok storage, disk) =>
    let node := Rpc.node (s.transport c.nodeUrl) c.rpcBatchSize.toNat
    let (doing, t) := perform c job
    let (r, w) := t.run.run node Storage.store ⟨{ transport := s.state }, storage⟩
    (during doing r, { s with disk := disk.save w.store, state := w.node.transport })

def Output.ofResult : Except Failure String → Output
  | .ok text => { exitCode := 0, stdout := text }
  | .error failure => { exitCode := 1, stderr := line failure.report }

/-- The output of a run that did not come to a job. -/
def Output.ofHalt : Halt → Output
  | .malformed => { exitCode := 2, stderr := usage }
  | .help => { exitCode := 0, stdout := usage }
  | .version => { exitCode := 0, stdout := line ("safeindex " ++ version) }

def run (s : Setting τ) (words : List String) : Output × Setting τ :=
  match Invocation.parse s.environment words with
  | .error halt => (.ofHalt halt, s)
  | .ok i =>
    match resolveSettings s.file i with
    | .error failure => (.ofResult (.error failure), s)
    | .ok settings =>
      let (r, s) := runJob s settings.config i.job
      (.ofResult r, s)

end ChainIndex.Command
