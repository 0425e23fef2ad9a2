import ChainIndex.Text.Ascii

/-!
# Address scopes

Which addresses an operation touches: all of them, or those of a list.  `AddressScope.only` brings a
list into its canonical form (small letters, sorted, each address once); membership disregards the
case of letters.
-/

namespace ChainIndex.Derived

/-- The addresses that an operation touches. -/
inductive AddressScope where
  | all
  | only (addresses : List String)
  deriving DecidableEq

/-- Puts a text into a sorted list of texts, unless it is there. -/
def insertSorted (s : String) : List String → List String
  | [] => [s]
  | t :: rest =>
    match compare s t with
    | .lt => s :: t :: rest
    | .eq => t :: rest
    | .gt => t :: insertSorted s rest

def sortedTexts (xs : List String) : List String := xs.foldr insertSorted []

namespace AddressScope

def ofAddresses (addresses : List String) : AddressScope :=
  .only (sortedTexts (addresses.map Text.lower))

def contains (scope : AddressScope) (address : String) : Bool :=
  match scope with
  | .all => true
  | .only list => list.any fun a => Text.eqIgnoringCase a address

def addresses? : AddressScope → Option (List String)
  | .all => none
  | .only list => some list

def description : AddressScope → String
  | .all => "all addresses"
  | .only list => toString list.length ++ " address(es)"

end AddressScope

end ChainIndex.Derived
