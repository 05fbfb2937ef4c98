import RubySexp.Command.Options
import RubySexp.Command.Path
import RubySexp.Convert
import RubySexp.Node.Load
import RubySexp.Node.Outline
import RubySexp.Sexp.Reader

namespace RubySexp.Command

/-!
# The Command

The command loads a dumped tree and prints its conversion, or an outline of the tree. It can
compare the conversion with an expected expression. All of it is a function of the arguments and
of the file that they name.
-/

/-- A line of the log. -/
inductive LogLine where
  | loading (text : String)
  | converting (text : String)
  deriving DecidableEq, Repr

namespace LogLine

def text : LogLine → String
  | .loading text | .converting text => text

/-- The line as it is written. -/
def render : LogLine → String
  | .loading text => "prismrp._load - DEBUG - " ++ text ++ "\n"
  | .converting text => "prismrp._convert - DEBUG - " ++ text ++ "\n"

end LogLine

/-- How a run of the command ends: its exit code and what it writes. -/
structure Ending where
  exitCode : Nat
  out : String := ""
  err : String := ""
  deriving DecidableEq, Repr

/-- The end of a run that could not do what it was asked to. -/
def Ending.failure (message : String) : Ending := { exitCode := 1, err := message ++ "\n" }

/-- A run of the command: its log, and its end unless a fault stopped it. -/
structure Run where
  log : List LogLine := []
  result : Except Fault Ending

/-- How the command is called. -/
def helpText : String := "\n".intercalate [
  "usage: prismrp [-h] [--text] [--lines] [--nodes] [--pos] [--expect SEXP]",
  "               [--file PATH] [--debug]",
  "               source",
  "",
  "Convert a dumped Prism syntax tree into ruby_parser sexps",
  "",
  "positional arguments:",
  "  source         JSON file holding the dumped tree",
  "",
  "options:",
  "  -h, --help     show this help message and exit",
  "  --text         Treat source as JSON text instead of a file path",
  "  --lines        Annotate output with .line(N) and compare lines with --expect",
  "  --nodes        Show the loaded input tree instead of converting it",
  "  --pos          Show line:column positions with --nodes",
  "  --expect SEXP  Printed sexp the conversion must match",
  "  --file PATH    Path reported for __FILE__",
  "  --debug        Enable debug logging",
  ""]

namespace Options

/-- The scope in which the tree is converted. -/
def scope (o : Options) : Scope := { filepath := o.file }

/-- The text of a result. -/
def resultText (o : Options) (result : Value) : Except Fault String :=
  if o.lines then result.inspectWithLines else result.inspect

/-- Whether a result is the expected one. Lines count only where they are asked for. -/
def isExpected (o : Options) (expected result : Value) : Bool :=
  match expected, result with
  | .sexp .., .sexp .. => Value.accepts o.lines expected result
  | _, _ => expected.same result

/-- Prints a result and compares it with the expected one. -/
def report (o : Options) (expected : Option (String × Value)) (result : Value) :
    Except Fault Ending := do
  let text ← o.resultText result
  match expected with
  | none => return { exitCode := 0, out := text ++ "\n" }
  | some (spelling, value) =>
    if o.isExpected value result then return { exitCode := 0, out := text ++ "\n" }
    else
      let message := "Mismatch\n  expected: " ++ spelling ++ "\n  actual:   " ++ text ++ "\n"
      return { exitCode := 1, out := text ++ "\n", err := message }

/-- Prints the conversion of a tree. -/
def printConversion (o : Options) (tree : Tree) : Except Fault Ending :=
  match tree.convert o.scope with
  | .error (.unsupported kind position reason) =>
    let fault := Fault.unsupported kind position reason
    .ok (.failure ("UnsupportedNodeError: " ++ fault.message))
  | .error fault => .error fault
  | .ok result =>
    match o.expect with
    | none => o.report none result
    | some spelling =>
      match Value.read spelling with
      | .ok value => o.report (some (spelling, value)) result
      | .error e => .ok (.failure ("SexpSyntaxError: " ++ e.message))

/-- Prints the outline of a tree. -/
def printOutline (o : Options) (tree : Tree) : Except Fault Ending := do
  let lines ← tree.outline o.pos
  let text := String.ofList (lines.flatMap fun line => line ++ ['\n'])
  return { exitCode := 0, out := text }

/-- Runs the command on the text of a dump. -/
def execute (o : Options) (source : String) : Run :=
  let loading := Tree.loadText source
  let loaded := loading.skipped.map fun skip => LogLine.loading skip.message
  match loading.result with
  | .error e =>
    match e.fault? with
    | some fault => ⟨loaded, .error fault⟩
    | none => ⟨loaded, .ok (.failure ("TreeLoadError: " ++ e.message))⟩
  | .ok tree =>
    if o.nodes then ⟨loaded, o.printOutline tree⟩
    else
      let converted := (tree.convertLog o.scope).map LogLine.converting
      ⟨loaded ++ converted, o.printConversion tree⟩

/-- Writes the log in front of the messages, if it is asked for. -/
def withLog (o : Options) (run : Run) : Run :=
  let lines := String.join (run.log.map LogLine.render)
  if o.debug then
    { run with result := run.result.map fun e => { e with err := lines ++ e.err } }
  else run

/-- Runs the command on what its source stands for. -/
def run (o : Options) (directory : String) (read : String → Except FileProblem String) : Run :=
  if o.text then o.withLog (o.execute o.source)
  else
    let path := fullPath directory o.source
    if path.toList.contains '\x00' then { result := .error .nullInPath }
    else match read path with
    | .ok content => o.withLog (o.execute (String.ofList (normalizeLineEnds content.toList)))
    | .error problem => { result := .ok (.failure (problem.message path)) }

end Options

/-- Runs the command on its arguments. Files are read with `read`, by their full path. -/
def run (directory : String) (read : String → Except FileProblem String)
    (arguments : List String) : Run :=
  match Request.read arguments with
  | .error e => { result := .ok { exitCode := 2, err := "prismrp: error: " ++ e.message ++ "\n" } }
  | .ok .help => { result := .ok { exitCode := 0, out := helpText } }
  | .ok (.run o) => o.run directory read

end RubySexp.Command
