import ChainIndex.Service

/-!
# Configuration

The settings of an index service with their defaults.  Settings are read from a JSON record in which
every field may be missing, and are refused if the service could not work with them.
-/

namespace ChainIndex

open Json

/-- The settings of an index service. -/
structure Config where
  /-- Where the node is to be reached. -/
  nodeUrl : String := "http://localhost:8545"
  /-- How many blocks have to be built on a block before it is final. -/
  reorgDepth : UInt64 := 10
  network : Network := .l1
  /-- How many blocks are replayed at a time. -/
  reindexChunkSize : UInt64 := defaultChunkSize
  /-- How many calls are sent to the node at a time. -/
  rpcBatchSize : UInt64 := 100
  /-- How many milliseconds the node has to answer. -/
  requestTimeout : UInt64 := 30000
  /-- The database; without one, tables are kept in memory. -/
  databaseUrl : Option String := none
  deriving DecidableEq

namespace Config

/-- Refuses settings with which the service could not work. -/
def validate (c : Config) : Except Fault Unit := do
  if c.nodeUrl.isEmpty then throw (.config "node_url must not be empty")
  if c.reindexChunkSize = 0 then throw (.config "reindex_chunk_size must be > 0")
  if c.rpcBatchSize = 0 then throw (.config "rpc_batch_size must be > 0")

/-- When blocks are final. -/
def policy (c : Config) : ConfirmationPolicy := ⟨c.reorgDepth⟩

/-- The service with these settings. -/
def service (c : Config) : Service where
  policy := c.policy
  network := c.network
  chunkSize := c.reindexChunkSize

/-- The record of the settings. -/
def toJson (c : Config) : Json := .obj [
  ("node_url", .str c.nodeUrl), ("reorg_depth", ofUInt64 c.reorgDepth),
  ("network_mode", c.network.toJson), ("reindex_chunk_size", ofUInt64 c.reindexChunkSize),
  ("rpc_batch_size", ofUInt64 c.rpcBatchSize), ("request_timeout_ms", ofUInt64 c.requestTimeout),
  ("database_url", ofOption .str c.databaseUrl)]

/-- The fields of a record of settings.  `readNetwork` reads the kind of network. -/
def fields (readNetwork : Reader Network) : RecordM Config := do
  let base : Config := {}
  let nodeUrl ← .defaulted "node_url" base.nodeUrl .text
  let reorgDepth ← .defaulted "reorg_depth" base.reorgDepth .uint64
  let network ← .defaulted "network_mode" base.network readNetwork
  let reindexChunkSize ← .defaulted "reindex_chunk_size" base.reindexChunkSize .uint64
  let rpcBatchSize ← .defaulted "rpc_batch_size" base.rpcBatchSize .uint64
  let requestTimeout ← .defaulted "request_timeout_ms" base.requestTimeout .uint64
  let databaseUrl ← .defaulted "database_url" base.databaseUrl (Reader.nullable .text)
  return { nodeUrl, reorgDepth, network, reindexChunkSize, rpcBatchSize, requestTimeout, databaseUrl }

/-- Reads a record of settings. -/
def reader : Reader Config := .record (fields Network.reader)

end Config

end ChainIndex
