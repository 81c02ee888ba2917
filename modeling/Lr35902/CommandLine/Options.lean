import Lr35902.File.System
import Lr35902.Text.CloseMatch
import Lr35902.Text.Quoted

/-!
Command lines: which words are options, which are values of options, and which are arguments, and
whether the values are of the kind that each option asks for.
-/
namespace Lr35902

/-- What the value of an option or argument has to be. A file need not exist unless asked for, but
may not be a directory. -/
inductive ValueRule where
  | flag
  | text
  | choice (allowed : List String)
  | file (mustExist : Bool)
  | directory
  deriving DecidableEq

/-- An option: its letter, its long name, what its value has to be, whether every value given counts
or only the last, the value it has if none is given, and whether one has to be given. -/
structure OptionSpec where
  letter : Option Char
  name : String
  rule : ValueRule
  multiple : Bool
  standard : Option String
  required : Bool
  deriving DecidableEq

/-- What a command takes: options, in the order in which values not given are checked, and at most
one argument. Words after the first argument may still be options unless `argumentsLast`. -/
structure CommandSpec where
  options : List OptionSpec
  argument : Option (String × ValueRule)
  argumentsLast : Bool

/-- Why a command line is refused. -/
inductive UsageError where
  | noSuchOption (name : String) (similar : List String)
  | requiresArgument (name : String)
  | takesNoValue (name : String)
  | missingArgument (name : String)
  | missingOption (label : String)
  | invalidValue (label reason : String)
  | extraArguments (arguments : List String)
  | noSuchCommand (name : String)
  | missingCommand
  deriving DecidableEq

/-- A command line as it was read: the options in order, each with its value if it takes one, and
the other words. -/
structure Words where
  options : List (OptionSpec × String)
  arguments : List String

/-- The wording of a refusal. -/
def UsageError.message : UsageError → String
  | .noSuchOption name [] => "No such option: " ++ name
  | .noSuchOption name [one] => "No such option: " ++ name ++ " Did you mean " ++ one ++ "?"
  | .noSuchOption name similar =>
    "No such option: " ++ name ++ " (Possible options: " ++ ", ".intercalate similar ++ ")"
  | .requiresArgument name => "Option '" ++ name ++ "' requires an argument."
  | .takesNoValue name => "Option '" ++ name ++ "' does not take a value."
  | .missingArgument name => "Missing argument '" ++ name ++ "'."
  | .missingOption label => "Missing option " ++ label ++ "."
  | .invalidValue label reason => "Invalid value for " ++ label ++ ": " ++ reason
  | .extraArguments [one] => "Got unexpected extra argument (" ++ one ++ ")"
  | .extraArguments arguments =>
    "Got unexpected extra arguments (" ++ " ".intercalate arguments ++ ")"
  | .noSuchCommand name => "No such command " ++ Text.quoted name ++ "."
  | .missingCommand => "Missing command."

namespace OptionSpec

/-- An option without a value. -/
def flag (letter : Option Char) (name : String) : OptionSpec :=
  ⟨letter, name, .flag, false, none, false⟩

/-- The long name as it is typed. -/
def longForm (spec : OptionSpec) : String := "--" ++ spec.name

/-- The option as messages name it. -/
def label (spec : OptionSpec) : String :=
  match spec.letter with
  | some letter => "'-" ++ String.singleton letter ++ "' / '" ++ spec.longForm ++ "'"
  | none => "'" ++ spec.longForm ++ "'"

def takesValue (spec : OptionSpec) : Bool := spec.rule != .flag

end OptionSpec

namespace Words

def none : Words := ⟨[], []⟩

/-- The words with an option more. -/
def addOption (words : Words) (spec : OptionSpec) (value : String) : Words :=
  { words with options := words.options ++ [(spec, value)] }

/-- The words with arguments more. -/
def addArguments (words : Words) (arguments : List String) : Words :=
  { words with arguments := words.arguments ++ arguments }

/-- The values given for an option, in order. -/
def valuesOf (words : Words) (name : String) : List String :=
  (words.options.filter fun given => given.1.name == name).map Prod.snd

/-- Whether an option is given. -/
def has (words : Words) (name : String) : Bool :=
  words.options.any fun given => given.1.name == name

/-- The first of some options that is given. -/
def firstOf? (words : Words) (names : List String) : Option String :=
  (words.options.map fun given => given.1.name).find? names.contains

end Words

namespace CommandSpec

/-- The value of an option: the last one given, or its standard value. -/
def valueOf? (spec : CommandSpec) (words : Words) (name : String) : Option String :=
  match (words.valuesOf name).getLast? with
  | some value => some value
  | none => (spec.options.find? fun option => option.name == name).bind OptionSpec.standard

/-- The option of a letter. -/
def ofLetter? (spec : CommandSpec) (letter : Char) : Option OptionSpec :=
  spec.options.find? fun option => option.letter == some letter

/-- The option of a long form. -/
def ofLongForm? (spec : CommandSpec) (text : String) : Option OptionSpec :=
  spec.options.find? fun option => option.longForm == text

/-- Reads letters that share one hyphen. The letters after one that takes a value are its value;
without any the next word is, and the answer says whether it was taken. -/
def readLetters (spec : CommandSpec) (words : Words) (next : Option String) :
    List Char → Except UsageError (Words × Bool)
  | [] => .ok (words, false)
  | letter :: rest =>
    let name := "-" ++ String.singleton letter
    match spec.ofLetter? letter with
    | none => .error (.noSuchOption name [])
    | some option =>
      if !option.takesValue then spec.readLetters (words.addOption option "") next rest
      else if !rest.isEmpty then .ok (words.addOption option (String.ofList rest), false)
      else
        match next with
        | some value => .ok (words.addOption option value, true)
        | none => .error (.requiresArgument name)

/-- Reads a long option. An equals sign attaches its value; otherwise the next word is the value,
and the answer says whether it was taken. -/
def readLong (spec : CommandSpec) (words : Words) (next : Option String) (word : List Char) :
    Except UsageError (Words × Bool) :=
  let before := word.takeWhile (· != '=')
  let name := String.ofList before
  let attached :=
    match word.drop before.length with
    | [] => Option.none
    | _ :: value => some (String.ofList value)
  match spec.ofLongForm? name with
  | none => .error (.noSuchOption name
      (Text.closeMatches name (spec.options.map OptionSpec.longForm)))
  | some option =>
    if option.takesValue then
      match attached, next with
      | some value, _ => .ok (words.addOption option value, false)
      | none, some value => .ok (words.addOption option value, true)
      | none, none => .error (.requiresArgument name)
    else
      match attached with
      | some _ => .error (.takesNoValue name)
      | none => .ok (words.addOption option "", false)

/-- Reads a word that starts with a hyphen and is longer than that. -/
def readOption (spec : CommandSpec) (words : Words) (next : Option String) (word : List Char) :
    Except UsageError (Words × Bool) :=
  match word with
  | '-' :: '-' :: _ => spec.readLong words next word
  | _ => spec.readLetters words next (word.drop 1)

/-- Whether a word is an option by its form. -/
def isOption (word : String) : Bool := word.startsWith "-" && decide (1 < word.length)

/-- Reads a command line word by word. Two hyphens end the options. -/
def readWords (spec : CommandSpec) (words : Words) : List String → Except UsageError Words
  | [] => .ok words
  | word :: rest =>
    if word = "--" then .ok (words.addArguments rest)
    else if isOption word then
      match spec.readOption words rest.head? word.toList with
      | .error error => .error error
      | .ok (words, true) => spec.readWords words rest.tail
      | .ok (words, false) => spec.readWords words rest
    else if spec.argumentsLast then .ok (words.addArguments (word :: rest))
    else spec.readWords (words.addArguments [word]) rest
termination_by rest => rest.length
decreasing_by all_goals simp only [List.length_cons, List.length_tail]; omega

end CommandSpec

namespace ValueRule

/-- What a path on the command line leads to. A path that ends with a slash or a full stop can only
lead to a directory, and its length is that of the text as it was typed. -/
def foundAt (files : FileSystem) (value : String) : Except FileFault Found :=
  if value.isEmpty then .error .notFound
  else if FileSystem.pathLimit < FileSystem.byteLength value then .error .nameTooLong
  else
    let last := (Path.components value.toList).getLastD []
    match files.locate (Path.ofString value) with
    | .ok (.directory spot) => .ok (.directory spot)
    | .ok found => if last.isEmpty || last == ['.'] then .error .notDirectory else .ok found
    | .error fault => .error fault

/-- What is wrong with a value, if anything is. -/
def objection? (files : FileSystem) (rule : ValueRule) (value : String) : Option String :=
  match rule with
  | .flag | .text => none
  | .choice allowed =>
    if allowed.contains (value.map Char.toLower) then none
    else
      some (Text.quoted value ++ " is not one of " ++
        ", ".intercalate (allowed.map fun choice => "'" ++ choice ++ "'") ++ ".")
  | .file mustExist =>
    match foundAt files value with
    | .ok (.file _ _ _) => none
    | .ok (.directory _) => some ("File " ++ Text.quoted value ++ " is a directory.")
    | _ => if mustExist then some ("File " ++ Text.quoted value ++ " does not exist.") else none
  | .directory =>
    match foundAt files value with
    | .ok (.directory _) => none
    | .ok (.file _ _ _) => some ("Directory " ++ Text.quoted value ++ " is a file.")
    | _ => some ("Directory " ++ Text.quoted value ++ " does not exist.")

/-- Checks one value. -/
def check (files : FileSystem) (rule : ValueRule) (label value : String) :
    Except UsageError Unit :=
  match rule.objection? files value with
  | some reason => .error (.invalidValue label reason)
  | none => .ok ()

/-- Checks values in order. -/
def checkAll (files : FileSystem) (rule : ValueRule) (label : String) :
    List String → Except UsageError Unit
  | [] => .ok ()
  | value :: rest =>
    match rule.check files label value with
    | .error error => .error error
    | .ok () => rule.checkAll files label rest

end ValueRule

namespace CommandSpec

/-- Checks what was given for an option, or its standard value. -/
def checkOption (spec : CommandSpec) (files : FileSystem) (words : Words) (option : OptionSpec) :
    Except UsageError Unit :=
  if option.multiple then
    option.rule.checkAll files option.label (words.valuesOf option.name)
  else
    match spec.valueOf? words option.name with
    | some value => option.rule.check files option.label value
    | none => if option.required then .error (.missingOption option.label) else .ok ()

/-- Checks options in order. -/
def checkOptions (spec : CommandSpec) (files : FileSystem) (words : Words) :
    List OptionSpec → Except UsageError Unit
  | [] => .ok ()
  | option :: rest =>
    match spec.checkOption files words option with
    | .error error => .error error
    | .ok () => spec.checkOptions files words rest

/-- Checks the argument, which has to be given. -/
def checkArgument (spec : CommandSpec) (files : FileSystem) (words : Words) :
    Except UsageError Unit :=
  match spec.argument, words.arguments with
  | none, _ => .ok ()
  | some (name, _), [] => .error (.missingArgument name)
  | some (name, rule), value :: _ => rule.check files ("'" ++ name ++ "'") value

/-- The arguments that the command has no use for. -/
def surplus (spec : CommandSpec) (words : Words) : List String :=
  match spec.argument with
  | some _ => words.arguments.tail
  | none => []

/-- Checks a command line that was read: the options given, in the order in which they first appear,
then the argument, then the options not given; last, whether there are arguments too many. -/
def check (spec : CommandSpec) (files : FileSystem) (words : Words) : Except UsageError Unit :=
  let given := (words.options.map Prod.fst).eraseDups
  match spec.checkOptions files words given with
  | .error error => .error error
  | .ok () =>
    match spec.checkArgument files words with
    | .error error => .error error
    | .ok () =>
      match spec.checkOptions files words (spec.options.filter fun o => !given.contains o) with
      | .error error => .error error
      | .ok () =>
        match spec.surplus words with
        | [] => .ok ()
        | surplus => .error (.extraArguments surplus)

end CommandSpec
end Lr35902
