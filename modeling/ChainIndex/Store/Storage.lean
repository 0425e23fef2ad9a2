import ChainIndex.Store.Location
import ChainIndex.Store.Memory
import ChainIndex.Store.Relational

/-!
# Opening a store

A store is in memory or in a database.  A `Disk` holds the databases under their paths; opening one takes
it from there, and `Disk.save` puts it back.
-/

namespace ChainIndex

/-- An open store. -/
inductive Storage where
  | memory (s : Session Memory)
  /-- A database, with the path of its file if it has one. -/
  | database (path? : Option String) (s : Session Relational)

namespace Storage

/-- An empty store in memory. -/
def inMemory : Storage := .memory { live := {} }

/-- What can be done to an open store. -/
def store : Store Storage where
  perform a
    | .memory s =>
      let (r, s) := Memory.backend.store.perform a s
      (r, .memory s)
    | .database path? s =>
      let (r, s) := Relational.backend.store.perform a s
      (r, .database path? s)

end Storage

/-- The directories that exist and the databases in them. -/
structure Disk where
  /-- Whether there is a directory of a name. -/
  isDirectory : String → Bool := fun path => path.isEmpty
  databases : Table String Relational := ∅

namespace Disk

def openAt (disk : Disk) (l : Location) : Except Fault Storage :=
  match l.path? with
  | none => .ok (.database none { live := {} })
  | some path =>
    match disk.databases.get? path with
    | some tables => .ok (.database path { live := tables })
    | none =>
      if l.create && disk.isDirectory (Location.directory path) && !disk.isDirectory path then
        .ok (.database path { live := {} })
      else .error Location.cannotOpen

/-- Keeps what an open store holds, if it has a file. -/
def save (disk : Disk) : Storage → Disk
  | .database (some path) s => { disk with databases := disk.databases.insert path s.live }
  | _ => disk

/-- Opens the store that is named, by default one in memory.  A database that is opened is on the disk
from then on. -/
def openStore (disk : Disk) : Option String → Except Fault Storage × Disk
  | none => (.ok .inMemory, disk)
  | some name =>
    match Location.parse name >>= disk.openAt with
    | .ok storage => (.ok storage, disk.save storage)
    | .error fault => (.error fault, disk)

end Disk

end ChainIndex
