import ChainIndex.Derived.Tables
import ChainIndex.Fault
import ChainIndex.Ledger.Basic

/-!
# Actions on a store

An `Access` reads or writes the tables of a store at once and as a whole.  An `Action` is an access, or a
step of a unit of work: changes to the derived tables that take effect together when the unit is
committed, or not at all.  A `Store` performs actions on a state of its own.
-/

namespace ChainIndex

open Derived

/-- Something done to the tables of a store. -/
inductive Access where
  | getBlock (hash : String)
  /-- Stores a block unless there is one of its hash, and raises the row's confirmation. -/
  | createBlock (block : Chain.Block) (confirmed : Bool)
  /-- Confirms every block up to a number, and counts those that were not. -/
  | confirmBlocks (upTo : UInt64)
  | getTransaction (hash : String)
  /-- The stored transactions with one of the hashes that are linked to a block. -/
  | getMined (hashes : List String)
  | createTransaction (tx : Chain.Transaction) (receipt : Chain.Receipt) (block : Ledger.Block)
  | createPending (tx : Chain.Transaction)
  /-- Links a stored transaction to a block and takes over what its receipt says. -/
  | linkTransaction (hash : String) (block : Ledger.Block) (receipt : Chain.Receipt)
  /-- Adds internal transactions and markers under new keys, and counts the former. -/
  | insertInternal (rows : List InternalTx) (markers : List Marker)
  | masterCopies
  | safeContracts
  | addMasterCopy (address : String)
  | addSafeContract (address : String)
  | putMultisigTx (row : MultisigTx)
  | putConfirmation (row : Confirmation)
  | putModuleTx (row : ModuleTx)
  | putSafeStatus (row : SafeStatus)
  | pendingMarkers
  | setProcessed (key : FrameKey)
  | counts
  deriving DecidableEq

abbrev Access.Reply : Access → Type
  | getBlock _ => Option Ledger.Block
  | createBlock .. => Ledger.Block
  | confirmBlocks _ => Nat
  | getTransaction _ => Option Ledger.Transaction
  | getMined _ => List Ledger.Transaction
  | createTransaction .. => Ledger.Transaction
  | createPending _ => Ledger.Transaction
  | linkTransaction .. => Ledger.Transaction
  | insertInternal .. => Nat
  | masterCopies => List String
  | safeContracts => List String
  | addMasterCopy _ => Unit
  | addSafeContract _ => Unit
  | putMultisigTx _ => Unit
  | putConfirmation _ => Unit
  | putModuleTx _ => Unit
  | putSafeStatus _ => Unit
  | pendingMarkers => List Marker
  | setProcessed _ => Unit
  | counts => Counts

/-- Something done to a store. -/
inductive Action where
  | access (a : Access)
  /-- Opens a unit of work. -/
  | beginUnit
  /-- One step of an invalidation within the open unit, with the number of rows it touches. -/
  | invalidate (step : Invalidation) (scope : AddressScope)
  /-- Makes the changes of the open unit take effect. -/
  | commit
  /-- Takes the changes of the open unit back. -/
  | rollback
  /-- Leaves the open unit without committing it. -/
  | abandon
  deriving DecidableEq

abbrev Action.Reply : Action → Type
  | access a => a.Reply
  | beginUnit => Unit
  | invalidate .. => Nat
  | commit => Unit
  | rollback => Unit
  | abandon => Unit

/-- A store, which performs actions on a state. -/
structure Store (σ : Type) where
  perform : (a : Action) → σ → Except Fault a.Reply × σ

end ChainIndex
