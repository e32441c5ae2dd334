/-!
# Arguments

The words on the command line: options, a command, and what the command works on. Options may stand
before the command or after it, and those after it win. An option with a value has it in the same
word or in the next one.
-/

namespace ConfigUpdate

/-- What the program is asked to do. -/
inductive Command where
  /-- To carry out the patch in a file. -/
  | applyPatch (path : String)
  /-- To replace the configuration by the one in a file. -/
  | replace (path : String)
  /-- To go back to a checkpoint. -/
  | rollback (name : String)
  /-- To keep the configuration as a checkpoint. -/
  | createCheckpoint (name : String)
  /-- To delete a checkpoint. -/
  | deleteCheckpoint (name : String)
  /-- To list the checkpoints. -/
  | listCheckpoints
  /-- To show the differences from the configuration in a file. -/
  | diff (path : String)
  deriving DecidableEq, Repr, Inhabited

/-- One use of the program. -/
structure Invocation where
  /-- The file of the settings. -/
  settingsPath : String
  /-- The least level of what is logged. -/
  logLevel : Option String
  /-- Whether nothing is to be written. -/
  dryRun : Bool
  /-- The name of the scope to which the command is restricted. -/
  scope : Option String
  /-- The command. -/
  command : Command
  deriving DecidableEq, Repr, Inhabited

/-- What the words ask for instead of a command. -/
inductive Aside where
  /-- They make no sense. -/
  | misuse
  | help
  | version
  deriving DecidableEq, Repr

/-- The options in one place, before the command or after it. -/
structure Flags where
  /-- The file of the settings. -/
  settingsPath : Option String := none
  /-- The least level of what is logged. -/
  logLevel : Option String := none
  /-- Whether nothing is to be written. -/
  dryRun : Bool := false
  /-- The name of the scope. -/
  scope : Option String := none
  deriving DecidableEq, Repr, Inhabited

/-- An option that has a value. -/
inductive ValueOption where
  | settingsPath
  | logLevel
  | scope
  deriving DecidableEq, Repr

namespace Flags

/-- Sets an option, which may be done once in a place. The path of a file cannot be empty. -/
def set (flags : Flags) (option : ValueOption) (value : String) : Except Aside Flags :=
  match option with
  | .settingsPath =>
    if flags.settingsPath.isSome || value == "" then .error .misuse
    else .ok { flags with settingsPath := some value }
  | .logLevel =>
    if flags.logLevel.isSome then .error .misuse else .ok { flags with logLevel := some value }
  | .scope =>
    if flags.scope.isSome then .error .misuse else .ok { flags with scope := some value }

/-- Sets the option that asks for a dry run. -/
def setDryRun (flags : Flags) : Except Aside Flags :=
  if flags.dryRun then .error .misuse else .ok { flags with dryRun := true }

/-- The options before the command together with those after it. -/
def merge (before after : Flags) : Flags where
  settingsPath := after.settingsPath <|> before.settingsPath
  logLevel := after.logLevel <|> before.logLevel
  dryRun := before.dryRun || after.dryRun
  scope := after.scope <|> before.scope

end Flags

namespace Arguments

/-- The option of a letter. -/
def optionOfLetter? : Char → Option ValueOption
  | 'c' => some .settingsPath
  | 'l' => some .logLevel
  | 's' => some .scope
  | _ => none

/-- The option of a name. -/
def optionOfName? : String → Option ValueOption
  | "config" => some .settingsPath
  | "log-level" => some .logLevel
  | "scope" => some .scope
  | _ => none

/-- The options after some have been read, and the one whose value is still to come. -/
abbrev Pending := Flags × Option ValueOption

/-- Reads the letters of a word; `atTop` before the command. -/
def readLetters (atTop : Bool) (flags : Flags) : List Char → Except Aside Pending
  | [] => .ok (flags, none)
  | 'n' :: cs => do readLetters atTop (← flags.setDryRun) cs
  | 'h' :: _ => .error .help
  | 'V' :: _ => .error (if atTop then .version else .misuse)
  | c :: cs =>
    match optionOfLetter? c, cs with
    | none, _ => .error .misuse
    | some o, [] => .ok (flags, some o)
    | some o, '=' :: value => do return (← flags.set o (String.ofList value), none)
    | some o, value => do return (← flags.set o (String.ofList value), none)

/-- Reads the name of an option and what follows it in its word. -/
def readName (atTop : Bool) (flags : Flags) (cs : List Char) : Except Aside Pending :=
  let name := String.ofList (cs.takeWhile (· != '='))
  match optionOfName? name, cs.dropWhile (· != '=') with
  | some o, [] => .ok (flags, some o)
  | some o, _ :: value => do return (← flags.set o (String.ofList value), none)
  | none, [] =>
    match name with
    | "dry-run" => do return (← flags.setDryRun, none)
    | "help" => .error .help
    | "version" => .error (if atTop then .version else .misuse)
    | _ => .error .misuse
  | none, _ => .error .misuse

/-- The characters of a word after the dash of an option; `none` for other words. -/
def optionBody? (word : String) : Option (List Char) :=
  match word.toList with
  | '-' :: c :: cs => some (c :: cs)
  | _ => none

/-- Reads an option without its dash. -/
def readOption (atTop : Bool) (flags : Flags) : List Char → Except Aside Pending
  | '-' :: cs => readName atTop flags cs
  | cs => readLetters atTop flags cs

/-- The commands by their names. -/
def commandNames : List String :=
  ["apply-patch", "replace", "rollback", "create-checkpoint", "delete-checkpoint",
    "list-checkpoints", "diff"]

/-- The command of a name and the words it works on. -/
def commandOf? : String → List String → Option Command
  | "apply-patch", [path] => if path = "" then none else some (.applyPatch path)
  | "replace", [path] => if path = "" then none else some (.replace path)
  | "rollback", [name] => some (.rollback name)
  | "create-checkpoint", [name] => some (.createCheckpoint name)
  | "delete-checkpoint", [name] => some (.deleteCheckpoint name)
  | "list-checkpoints", [] => some .listCheckpoints
  | "diff", [path] => if path = "" then none else some (.diff path)
  | _, _ => none

/-- The file of the settings if no other one is named. -/
def defaultSettingsPath : String := "/etc/sonic/gcu.toml"

/-- The use of the program that options and a command describe. -/
def invocation (flags : Flags) (name : String) (words : List String) :
    Except Aside Invocation :=
  match commandOf? name words with
  | none => .error .misuse
  | some command =>
    .ok ⟨flags.settingsPath.getD defaultSettingsPath, flags.logLevel, flags.dryRun, flags.scope,
      command⟩

/-- Reads the words after the name of the command: `words` are those it works on, last first. -/
def readAfter (before : Flags) (name : String) :
    Flags → List String → List String → Except Aside Invocation
  | flags, words, [] => invocation (before.merge flags) name words.reverse
  | flags, words, w :: ws =>
    if w = "--" then invocation (before.merge flags) name (words.reverse ++ ws)
    else
      match optionBody? w with
      | none => readAfter before name flags (w :: words) ws
      | some body => do
        match ← readOption false flags body, ws with
        | (flags, none), ws => readAfter before name flags words ws
        | (flags, some o), v :: ws =>
          if (optionBody? v).isSome then throw .misuse
          readAfter before name (← flags.set o v) words ws
        | _, [] => throw .misuse

/-- Reads the words up to the name of the command, and then the others. -/
def readBefore : Flags → List String → Except Aside Invocation
  | _, [] => .error .misuse
  | flags, w :: ws =>
    match optionBody? w with
    | none =>
      if commandNames.contains w then readAfter flags w {} [] ws
      else .error (if w = "help" then .help else .misuse)
    | some body => do
      if body = ['-'] then throw .misuse
      match ← readOption true flags body, ws with
      | (flags, none), ws => readBefore flags ws
      | (flags, some o), v :: ws =>
        if (optionBody? v).isSome then throw .misuse
        readBefore (← flags.set o v) ws
      | _, [] => throw .misuse

/-- Reads the words of the command line. -/
def parse (words : List String) : Except Aside Invocation :=
  readBefore {} words

end Arguments

end ConfigUpdate
