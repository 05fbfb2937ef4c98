import RubySexp.Text.Digit
import RubySexp.Text.Quoted

namespace RubySexp.Command

/-!
# Options

What the arguments of the command mean. An option may be shortened as long as only one option
starts that way, and a value may be joined to it with an equals sign. A pair of dashes ends the
options; what follows is taken as it is. Arguments that look like negative numbers, or that hold
a space, are not taken for options.
-/

/-- The options of the command. -/
inductive OptionName where
  | help
  | text
  | lines
  | nodes
  | pos
  | expect
  | file
  | debug
  deriving DecidableEq, Repr

namespace OptionName

/-- The option's name in messages. -/
def label : OptionName → String
  | .help => "-h/--help"
  | .text => "--text"
  | .lines => "--lines"
  | .nodes => "--nodes"
  | .pos => "--pos"
  | .expect => "--expect"
  | .file => "--file"
  | .debug => "--debug"

def takesValue : OptionName → Bool
  | .expect | .file => true
  | _ => false

/-- The spellings of all options, in the order in which they are listed. -/
def spellings : List (String × OptionName) := [
  ("-h", .help), ("--help", .help), ("--text", .text), ("--lines", .lines), ("--nodes", .nodes),
  ("--pos", .pos), ("--expect", .expect), ("--file", .file), ("--debug", .debug)]

end OptionName

/-- What the command is asked to do. -/
structure Options where
  /-- A path, or the dump itself. -/
  source : String
  text : Bool := false
  lines : Bool := false
  nodes : Bool := false
  pos : Bool := false
  expect : Option String := none
  file : Option String := none
  debug : Bool := false
  deriving DecidableEq, Repr

/-- Why arguments make no sense. -/
inductive UsageError where
  | ambiguous (argument : String) (candidates : List String)
  | noValue (option : OptionName)
  | ignoredValue (option : OptionName) (value : String)
  | noSource
  | unrecognized (arguments : List String)
  deriving DecidableEq, Repr

def UsageError.message : UsageError → String
  | .ambiguous argument candidates =>
    "ambiguous option: " ++ argument ++ " could match " ++ ", ".intercalate candidates
  | .noValue option => "argument " ++ option.label ++ ": expected one argument"
  | .ignoredValue option value =>
    "argument " ++ option.label ++ ": ignored explicit argument " ++
      String.ofList (Quoted.text value.toList)
  | .noSource => "the following arguments are required: source"
  | .unrecognized arguments => "unrecognized arguments: " ++ " ".intercalate arguments

/-- What an argument in front of the pair of dashes is taken for. -/
inductive Argument where
  | plain
  | option (name : OptionName) (value : Option String)
  /-- The short option with letters behind it, with or without an equals sign before them. -/
  | joined (letters : List Char)
  | unknown
  | ambiguous (candidates : List String)
  deriving DecidableEq, Repr

namespace Argument

/-- Whether a text is a minus sign with digits, and a point if it has decimals. -/
def isNegativeNumber : List Char → Bool
  | '-' :: cs =>
    let cs := if cs.getLast? == some '\n' then cs.dropLast else cs
    match cs.dropWhile isDigit with
    | [] => !cs.isEmpty
    | '.' :: decimals => !decimals.isEmpty && decimals.all isDigit
    | _ => false
  | _ => false

/-- A text up to its first equals sign, and what follows the sign. -/
def splitValue (cs : List Char) : List Char × Option (List Char) :=
  match cs.dropWhile (· != '=') with
  | _ :: value => (cs.takeWhile (· != '='), some value)
  | [] => (cs, none)

/-- The option with exactly this spelling. -/
def named? (cs : List Char) : Option OptionName :=
  (OptionName.spellings.find? (·.1.toList == cs)).map (·.2)

/-- The options that a text shortens. -/
def candidates (cs : List Char) : List (String × OptionName) :=
  OptionName.spellings.filter fun (spelling, _) => cs.isPrefixOf spelling.toList

/-- An argument that starts with a dash and is no option. -/
def other (cs : List Char) : Argument :=
  if isNegativeNumber cs || cs.contains ' ' then .plain else .unknown

/-- An argument that starts with two dashes and may be short for an option. -/
def shortened (cs : List Char) : Argument :=
  let (head, value) := splitValue cs
  match candidates head with
  | [] => other cs
  | [(_, name)] => .option name (value.map String.ofList)
  | several => .ambiguous (several.map (·.1))

/-- What an argument is taken for. -/
def classify (argument : String) : Argument :=
  match argument.toList with
  | '-' :: c :: cs =>
    let all := '-' :: c :: cs
    match named? all, splitValue all with
    | some name, _ => .option name none
    | none, (['-', 'h'], some value) => .joined value
    | none, _ =>
      if c == '-' then shortened all else if c == 'h' then .joined cs else other all
  | _ => .plain

/-- The letters behind the short option that are not its own letter again. -/
def ignoredLetters? : List Char → Option (List Char)
  | ['h'] => none
  | 'h' :: cs => ignoredLetters? cs
  | cs => some cs

/-- The value that is joined to an option. A pair of dashes alone stands for no text. -/
def joinedValue (value : String) : String := if value == "--" then "" else value

end Argument

/-- The arguments understood so far. -/
structure Progress where
  source : Option String := none
  options : Options := { source := "" }
  help : Bool := false
  extras : List String := []

namespace Progress

/-- Notes an argument that has no place. -/
def extra (p : Progress) (arguments : List String) : Progress :=
  { p with extras := p.extras ++ arguments }

/-- Sets an option that takes no value. -/
def switch (p : Progress) : OptionName → Progress
  | .text => { p with options := { p.options with text := true } }
  | .lines => { p with options := { p.options with lines := true } }
  | .nodes => { p with options := { p.options with nodes := true } }
  | .pos => { p with options := { p.options with pos := true } }
  | .debug => { p with options := { p.options with debug := true } }
  | .help => { p with help := true }
  | .expect | .file => p

/-- Sets an option that takes a value. -/
def assign (p : Progress) (name : OptionName) (value : String) : Progress :=
  match name with
  | .expect => { p with options := { p.options with expect := some value } }
  | .file => { p with options := { p.options with file := some value } }
  | _ => p

/-- What follows the pair of dashes: the source, if it has not come before, and extras. -/
def finish (p : Progress) (rest : List String) : Progress :=
  match p.source, rest with
  | none, source :: rest => { p with source := some source }.extra rest
  | _, rest => p.extra ("--" :: rest)

/-- Goes through the arguments in order; `waiting` is an option whose value is due. A pair of
dashes right behind the source belongs to it. Nothing is looked at behind a call for help. -/
def consume (waiting : Option OptionName) (p : Progress) :
    List String → Except UsageError Progress
  | [] =>
    match waiting with
    | some name => .error (.noValue name)
    | none => .ok p
  | argument :: rest =>
    match waiting with
    | some name =>
      if argument != "--" && Argument.classify argument == .plain then
        consume none (p.assign name argument) rest
      else .error (.noValue name)
    | none =>
      if argument == "--" then .ok (p.finish rest)
      else
        match Argument.classify argument with
        | .plain =>
          match p.source, rest with
          | some _, rest => consume none (p.extra [argument]) rest
          | none, "--" :: rest => .ok ({ p with source := some argument }.extra rest)
          | none, rest => consume none { p with source := some argument } rest
        | .unknown | .ambiguous _ => consume none (p.extra [argument]) rest
        | .joined letters =>
          match Argument.ignoredLetters? letters with
          | some value => .error (.ignoredValue .help (String.ofList value))
          | none => .ok { p with help := true }
        | .option name none =>
          if name.takesValue then consume (some name) p rest
          else if name == .help then .ok { p with help := true }
          else consume none (p.switch name) rest
        | .option name (some value) =>
          if name.takesValue then consume none (p.assign name (Argument.joinedValue value)) rest
          else .error (.ignoredValue name value)

end Progress

/-- What arguments ask for. -/
inductive Request where
  | help
  | run (o : Options)
  deriving DecidableEq, Repr

/-- The first argument in front of the pair of dashes that could be several options. -/
def ambiguity? (arguments : List String) : Option UsageError :=
  (arguments.takeWhile (· != "--")).findSome? fun argument =>
    match Argument.classify argument with
    | .ambiguous candidates => some (.ambiguous argument candidates)
    | _ => none

/-- Reads the arguments of the command. -/
def Request.read (arguments : List String) : Except UsageError Request :=
  match ambiguity? arguments with
  | some e => .error e
  | none => do
    let p ← Progress.consume none {} arguments
    if p.help then return .help
    else
      match p.source, p.extras with
      | none, _ => .error .noSource
      | some source, [] => return .run { p.options with source := source }
      | some _, extras => .error (.unrecognized extras)

end RubySexp.Command
