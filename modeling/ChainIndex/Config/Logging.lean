import ChainIndex.Json.Record
import ChainIndex.Table

/-!
# What is logged

The level from which on messages are logged, with exceptions for single components.
-/

namespace ChainIndex

open Json

structure Logging where
  level : String := "info"
  /-- The levels of single components, by their names. -/
  components : Table String String := ∅
  /-- Whether messages are logged as JSON. -/
  json : Bool := false

namespace Logging

/-- A table of the given entries; of equal names the last one counts. -/
def tableOf (entries : List (String × String)) : Table String String :=
  entries.foldl (fun t e => t.insert e.1 e.2) ∅

/-- Reads what is logged from a record in which every field may be missing. -/
def reader : Reader Logging := .record do
  let level ← .defaulted "level" ({} : Logging).level .text
  let components ← .defaulted "components" [] .textMap
  let json ← .defaulted "json" ({} : Logging).json .bool
  return { level, components := tableOf components, json }

def toJson (l : Logging) : Json := .obj [
  ("level", .str l.level), ("components", .obj (l.components.rows.map fun e => (e.1, .str e.2))),
  ("json", .bool l.json)]

/-- A component's name as messages carry it, with underscores for hyphens. -/
def target (component : String) : String := component.map fun c => if c = '-' then '_' else c

/-- The levels in one line: the general one, then those of the components in the order of their
names. -/
def directives (l : Logging) : String :=
  l.level ++ String.join (l.components.rows.map fun e => "," ++ target e.1 ++ "=" ++ e.2)

end Logging

end ChainIndex
