import ChainIndex.Config.Basic
import ChainIndex.Store.Storage

/-!
# The shared service

Everybody who needs the service shares one instance.  Whoever comes first builds it: a caller looks at the
slot, builds an instance if the slot is empty, and publishes it unless somebody else was faster.  The steps
of several callers may interleave.
-/

namespace ChainIndex

/-- Builds a service: checks the settings, makes the client of the node, then opens the store.  `client` is what
the HTTP library says to the client: nothing, or why it cannot be made. -/
def Config.build (c : Config) (disk : Disk) (client : Except String Unit := .ok ()) :
    Except Fault Service × Disk :=
  match c.validate with
  | .error fault => (.error fault, disk)
  | .ok () =>
    match client with
    | .error text => (.error (.rpc ("build http client: " ++ text)), disk)
    | .ok () =>
      match disk.openStore c.databaseUrl with
      | (.error fault, disk) => (.error fault, disk)
      | (.ok _, disk) => (.ok c.service, disk)

/-- A service that was built, with a number that tells it apart from all others. -/
structure Instance where
  number : Nat
  service : Service
  deriving DecidableEq

/-- The slot of the shared instance, and how many instances were built. -/
structure Provider where
  slot : Option Instance := none
  built : Nat := 0
  deriving DecidableEq

namespace Provider

def number (p : Provider) (s : Service) : Instance × Provider :=
  (⟨p.built, s⟩, { p with built := p.built + 1 })

/-- Puts an instance into the slot if that is empty; the shared instance is the one in the slot. -/
def publish (p : Provider) (i : Instance) : Instance × Provider :=
  match p.slot with
  | some shared => (shared, p)
  | none => (i, { p with slot := some i })

/-- Puts an instance into the slot, whatever is there. -/
def set (p : Provider) (i : Instance) : Provider := { p with slot := some i }

def current (p : Provider) : Option Instance := p.slot

/-- Empties the slot. -/
def reset (p : Provider) : Provider := { p with slot := none }

/-- The shared instance, built first if there is none; `outcome` is what building gives. -/
def getOrBuild (p : Provider) (outcome : Except Fault Service) : Except Fault Instance × Provider :=
  match p.current with
  | some shared => (.ok shared, p)
  | none =>
    match outcome with
    | .error fault => (.error fault, p)
    | .ok s =>
      let (i, p) := p.number s
      let (shared, p) := p.publish i
      (.ok shared, p)

end Provider

end ChainIndex
