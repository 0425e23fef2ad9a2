import ChainIndex.Fault
import ChainIndex.Text.Percent

/-!
# Locations of databases

A database is named by a file path or by a URL with the scheme `sqlite`.  A path is created when it is
missing; a URL says in its query how it is to be opened.
-/

namespace ChainIndex

/-- Where a database is and how it is to be opened. -/
structure Location where
  /-- The file; without one the database is kept in memory. -/
  path? : Option String
  /-- Whether a missing file is created. -/
  create : Bool := false
  deriving DecidableEq

namespace Location

/-- The scheme of the URLs of databases. -/
def scheme : String := "sqlite:"

/-- The fault of a URL that cannot be understood. -/
def malformed (text : String) : Fault := .storage ("error with configuration: " ++ text)

def cannotOpen : Fault :=
  .storage "error returned from database: (code: 14) unable to open database file"

/-- The characters of a text after another text that it starts with, as often as it does. -/
def dropRepeated (mark : List Char) (cs : List Char) : List Char :=
  if _ : mark ≠ [] ∧ mark <+: cs then dropRepeated mark (cs.drop mark.length) else cs
termination_by cs.length
decreasing_by
  have h := ‹mark ≠ [] ∧ mark <+: cs›
  have := h.2.length_le
  have := List.length_pos_iff.2 h.1
  simp only [List.length_drop]
  omega

def quoted (s : String) : String :=
  String.ofList ('"' :: s.toList.flatMap (fun c => if c = '"' ∨ c = '\\' then ['\\', c] else [c]) ++ ['"'])

def unknownValue (name value : String) : Fault :=
  malformed ("unknown value " ++ quoted value ++ " for `" ++ name ++ "`")

/-- Takes one setting of a query into account. -/
def setting (l : Location) : String × String → Except Fault Location
  | ("mode", "ro") => .ok l
  | ("mode", "rw") => .ok l
  | ("mode", "rwc") => .ok { l with create := true }
  | ("mode", "memory") => .ok { l with path? := none }
  | ("mode", v) => .error (unknownValue "mode" v)
  | ("cache", "private") => .ok l
  | ("cache", "shared") => .ok l
  | ("cache", v) => .error (unknownValue "cache" v)
  | ("immutable", v) =>
    if v = "true" ∨ v = "1" ∨ v = "false" ∨ v = "0" then .ok l else .error (unknownValue "immutable" v)
  | ("vfs", _) => .ok l
  | (name, _) =>
    .error (malformed ("unknown query parameter `" ++ name ++ "` while parsing connection URL"))

/-- The location before its query: a file, or memory if it is called so or has no name. -/
def ofPath (path : String) : Except Fault Location :=
  if path = ":memory:" then .ok { path? := none }
  else
    match Text.percentDecode path with
    | .error text => .error (malformed text)
    | .ok path => .ok { path? := if path.isEmpty then none else some path }

def ofUrl (url : String) : Except Fault Location := do
  let cs := dropRepeated scheme.toList (dropRepeated (scheme ++ "//").toList url.toList)
  let path := cs.takeWhile (· ≠ '?')
  let l ← ofPath (String.ofList path)
  (Text.queryPairs (String.ofList (cs.drop (path.length + 1)))).foldlM setting l

/-- Reads a path or a URL. -/
def parse (s : String) : Except Fault Location :=
  if scheme.toList.isPrefixOf s.toList then ofUrl s else ofUrl (scheme ++ s ++ "?mode=rwc")

/-- The directory of a file; the empty text for a file without one. -/
def directory (path : String) : String :=
  String.ofList ((path.toList.reverse.dropWhile (· ≠ '/')).drop 1).reverse

end Location

end ChainIndex
