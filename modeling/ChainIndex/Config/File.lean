import ChainIndex.Config.Basic
import ChainIndex.Config.Logging

/-!
# Files of settings

A file of settings holds a JSON text.  `Config.ofFile` reads the settings of a service alone; `Settings` are
those of the command line, where what is logged stands among them under `log`.
-/

namespace ChainIndex

open Json

inductive FileContent where
  | missing
  | directory
  | bytes (content : ByteArray)

/-- The text of a file, or why there is none. -/
def FileContent.text : FileContent → Except String String
  | missing => .error "No such file or directory (os error 2)"
  | directory => .error "Is a directory (os error 21)"
  | bytes content =>
    match String.fromUTF8? content with
    | some text => .ok text
    | none => .error "stream did not contain valid UTF-8"

/-- Why a text is no record of settings. -/
def unreadableSettings : String := "not a record of settings"

def Config.ofFile (path : String) (content : FileContent) : Except Fault Config := do
  let text ← content.text.mapError fun why => .config ("read " ++ path ++ ": " ++ why)
  match Config.reader.ofText? text with
  | none => throw (.config ("parse " ++ path ++ ": " ++ unreadableSettings))
  | some c =>
    c.validate
    return c

/-- The settings of the command line. -/
structure Settings where
  config : Config := {}
  logging : Logging := {}

namespace Settings

def isReadable (depth : Nat) (d : Document) : Bool := (d.value? depth).isSome

/-- Reads a kind of network by its name.  An empty object will do for `null` after the name. -/
def network : Reader Network
  | depth, .obj [(name, .obj [])] => Network.reader depth (.obj [(name, .null)])
  | depth, d => Network.reader depth d

def fields : RecordM Settings := do
  let config ← Config.fields network
  let logging ← .defaulted "log" {} Logging.reader
  return { config, logging }

/-- Reads the settings of the command line.  Only an object will do, and all of its fields but `log` have
to be readable, whether they are known or not. -/
def reader : Reader Settings
  | depth + 1, .obj names => do
    let named ← Reader.names? names
    guard (named.all fun f => f.1 == "log" || isReadable depth f.2)
    let (s, _) ← fields ⟨depth, .named named⟩
    return s
  | _, _ => none

end Settings

end ChainIndex
