import ChainIndex.Rpc.Client
import ChainIndex.Text.Ascii

/-!
# A transport without a network

Nothing that is posted gets through.  The report of that names the URL in its normal form, in which a web
address has small letters in the scheme and the host, no end of the host that goes without saying, and at
least a slash for the path.
-/

namespace ChainIndex.Rpc

/-- What can be made of a URL. -/
inductive Target where
  /-- Not a URL at all. -/
  | unreadable
  /-- A URL at which no node can be, in its normal form. -/
  | foreign (url : String)
  /-- The normal form of an address on the web. -/
  | web (url : String)
  deriving DecidableEq

/-- Whether a character may stand in the scheme of a URL. -/
def isSchemeChar (c : Char) : Bool := c.isAlphanum || c == '+' || c == '-' || c == '.'

/-- The scheme of a URL in small letters, and what follows the colon. -/
def splitScheme? (url : String) : Option (String × List Char) :=
  let name := url.toList.takeWhile (· ≠ ':')
  match url.toList.drop name.length with
  | ':' :: rest =>
    if name.head?.any Char.isAlpha && name.all isSchemeChar
    then some (Text.lower (String.ofList name), rest)
    else none
  | _ => none

/-- The end of a host that goes without saying in URLs of a scheme, if those name a host. -/
def impliedEnd? (scheme : String) : Option String :=
  if scheme = "http" ∨ scheme = "ws" then some ":80"
  else if scheme = "https" ∨ scheme = "wss" then some ":443"
  else if scheme = "ftp" then some ":21"
  else none

def endsHost (c : Char) : Bool := c == '/' || c == '?' || c == '#'

def withoutSuffix (suffix text : List Char) : List Char :=
  if suffix.isSuffixOf text then text.take (text.length - suffix.length) else text

/-- The normal form of a URL that names a host, from what follows the colon of its scheme. -/
def hostUrl? (scheme implied : String) (rest : List Char) : Option String :=
  let rest := rest.dropWhile (· == '/')
  let host := rest.takeWhile fun c => !endsHost c
  let path := rest.dropWhile fun c => !endsHost c
  let path := if path.head? = some '/' then path else '/' :: path
  let host := withoutSuffix implied.toList host
  if host.isEmpty then none
  else some (scheme ++ "://" ++ Text.lower (String.ofList host) ++ String.ofList path)

/-- What a URL is. -/
def Target.ofUrl (url : String) : Target :=
  match splitScheme? url with
  | none => .unreadable
  | some (scheme, rest) =>
    match impliedEnd? scheme with
    | none => .foreign (scheme ++ ":" ++ String.ofList rest)
    | some implied =>
      match hostUrl? scheme implied rest with
      | none => .unreadable
      | some url => if scheme = "http" ∨ scheme = "https" then .web url else .foreign url

/-- Why nothing gets through. -/
def Target.offlineText : Target → String
  | unreadable => "builder error"
  | foreign url => "builder error for url (" ++ url ++ ")"
  | web url => "error sending request for url (" ++ url ++ ")"

/-- The transport that lets nothing through. -/
def offline {τ : Type} (url : String) : Transport τ where
  post _ s := (.unreachable (Target.ofUrl url).offlineText, s)

end ChainIndex.Rpc
