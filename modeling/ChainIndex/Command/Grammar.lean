/-!
# The grammar of command lines

A command line is read level by level: the program's own options, then those of a subcommand.  An option is
written `--name` and may take a value, as the next word or after an equals sign; words after `--` are never
options.  Asking for help or for the version ends the reading at once, unless something wrong came before.

The value of an option is checked when the next option is reached, so a subcommand is read before the value
of the option in front of it is checked.
-/

namespace ChainIndex.Command

/-- An option. -/
structure Opt where
  name : String
  takesValue : Bool := true
  /-- Whether it may be given more than once. -/
  repeatable : Bool := false
  /-- Whether a value is acceptable. -/
  accepts : String → Bool := fun _ => true

/-- How many words a level takes besides its options. -/
inductive Words where
  | none
  | one
  | many
  deriving DecidableEq

/-- What may be written on a level. -/
structure Level where
  options : List Opt
  words : Words := .none
  /-- Whether the version can be asked for. -/
  version : Bool := false
  subcommands : List String := []

/-- Why reading a command line ended early. -/
inductive Halt where
  | malformed
  | help
  | version
  deriving DecidableEq

/-- What was read of a level. -/
structure Read where
  /-- The options in their order, each with its value; a flag's value is empty. -/
  options : List (String × String) := []
  words : List String := []
  /-- The option that is still to be checked, with its value if that was read. -/
  pending : Option (Opt × Option String) := none
  /-- Whether all further words are no options. -/
  onlyWords : Bool := false

namespace Read

def value? (r : Read) (name : String) : Option String :=
  (r.options.filter fun o => o.1 == name).getLast?.map Prod.snd

def values (r : Read) (name : String) : List String :=
  (r.options.filter fun o => o.1 == name).map Prod.snd

/-- Whether an option was given. -/
def has (r : Read) (name : String) : Bool := r.options.any fun o => o.1 == name

def addOption (r : Read) (o : Opt) (value : String) : Except Halt Read :=
  if !o.repeatable && r.has o.name then .error .malformed
  else if o.accepts value then .ok { r with options := r.options ++ [(o.name, value)] }
  else .error .malformed

/-- Checks the pending option. -/
def settle (r : Read) : Except Halt Read :=
  match r.pending with
  | none => .ok r
  | some (_, none) => .error .malformed
  | some (o, some value) => { r with pending := none }.addOption o value

/-- Whether the next word is the value of an option. -/
def awaitsValue (r : Read) : Bool :=
  match r.pending with
  | some (_, none) => true
  | _ => false

/-- Takes a word that is no option. -/
def addWord (r : Read) (l : Level) (word : String) : Except Halt Read := do
  let r ← r.settle
  match l.words with
  | .none => throw .malformed
  | .one => if r.words.isEmpty then return { r with words := [word] } else throw .malformed
  | .many => return { r with words := r.words ++ [word] }

/-- Takes an option by its name, with the value that is attached to it if there is one. -/
def addLong (r : Read) (l : Level) (name : String) (attached : Option String) :
    Except Halt Read := do
  match l.options.find? fun o => o.name == name with
  | some o =>
    let r ← r.settle
    match o.takesValue, attached with
    | true, some value => r.addOption o value
    | true, none => return { r with pending := some (o, none) }
    | false, some _ => throw .malformed
    | false, none => r.addOption o ""
  | none =>
    let _ ← r.settle
    if attached.isSome then throw .malformed
    if name = "help" then throw .help
    if name = "version" && l.version then throw .version
    throw .malformed

/-- Takes a word that starts with a single hyphen; such words only ask for help or the version. -/
def addShort (r : Read) (l : Level) (letters : List Char) : Except Halt Read := do
  let _ ← r.settle
  match letters with
  | 'h' :: _ => throw .help
  | 'V' :: _ => throw (if l.version then .version else .malformed)
  | _ => throw .malformed

/-- Takes the next word, which names no subcommand. -/
def add (r : Read) (l : Level) (word : String) : Except Halt Read :=
  if r.onlyWords then r.addWord l word
  else
    match word.toList with
    | ['-', '-'] => .ok { r with onlyWords := true }
    | '-' :: '-' :: cs =>
      let name := cs.takeWhile (· ≠ '=')
      let attached := if name.length < cs.length then some (cs.drop (name.length + 1)) else none
      r.addLong l (String.ofList name) (attached.map String.ofList)
    | '-' :: c :: cs => r.addShort l (c :: cs)
    | _ =>
      match r.pending with
      | some (o, none) => .ok { r with pending := some (o, some word) }
      | _ => r.addWord l word

end Read

/-- What was asked for help with: a subcommand, or none. -/
def readHelp (l : Level) : List String → Halt
  | [] => .help
  | [word] => if word = "help" || l.subcommands.contains word then .help else .malformed
  | _ => .malformed

/-- Reads a level up to the name of a subcommand, which comes with the words after it. -/
def readLevel (l : Level) : Read → List String → Except Halt (Read × Option (String × List String))
  | r, [] => .ok (r, none)
  | r, word :: rest =>
    if !r.onlyWords && !r.awaitsValue && l.subcommands.contains word then
      .ok (r, some (word, rest))
    else if !r.onlyWords && !r.awaitsValue && !l.subcommands.isEmpty && word == "help" then
      .error (readHelp l rest)
    else do
      let r ← r.add l word
      readLevel l r rest

/-- Reads the level of a subcommand to its end. -/
def readAll (l : Level) (words : List String) : Except Halt Read := do
  let (r, _) ← readLevel l {} words
  r.settle

/-- Reads a command line: the program's level, the name of the subcommand and its level. -/
def readLine (program : Level) (subcommand : String → Level) (words : List String) :
    Except Halt (Read × String × Read) := do
  match ← readLevel program {} words with
  | (_, none) => throw .malformed
  | (r, some (name, rest)) =>
    let sub ← readAll (subcommand name) rest
    let r ← r.settle
    return (r, name, sub)

end ChainIndex.Command
