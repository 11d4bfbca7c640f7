/-
The arguments of the command line.

`CONFIG [-i|--input FILE] [-f|--format FORMAT] [-o|--output FILE]`: a value
follows its option, as the next argument or attached to it, with or without an
equals sign; an option is given once; and after `--` every argument is a plain
one.  Arguments are judged from left to right, and the first fault or the first
request for help decides.
-/
import RunCompare.Report.Format

namespace RunCompare.CommandLine

/-- What the program is asked to do. -/
structure Options where
  /-- The path of the configuration. -/
  config : String
  /-- The path of the runs, if it is not to be taken from the configuration. -/
  input : Option String
  format : ReportFormat
  /-- The path of the report; without it the report goes to standard output. -/
  output : Option String
deriving DecidableEq, Repr

/-- What a list of arguments asks for. -/
inductive Invocation where
  | run (options : Options)
  | help
  | version
  /-- The arguments are wrong. -/
  | invalid
deriving DecidableEq, Repr

/-- The options that take a value. -/
inductive OptionName where
  | input
  | format
  | output
deriving DecidableEq, Repr

/-- What has been read of the arguments. -/
structure Draft where
  config : Option String := none
  input : Option String := none
  format : Option ReportFormat := none
  output : Option String := none

/-- The draft with a path that had not been given yet and is not empty. -/
def givenOnce (old : Option String) (path : String) : Option (Option String) :=
  if old.isSome || path.isEmpty then none else some (some path)

namespace Draft

/-- The draft with the value of an option, unless it is wrong. -/
def set (d : Draft) (name : OptionName) (value : String) : Option Draft :=
  match name with
  | .input => (givenOnce d.input value).map fun input => { d with input }
  | .output => (givenOnce d.output value).map fun output => { d with output }
  | .format =>
    match d.format, ReportFormat.ofName value with
    | none, .ok format => some { d with format := some format }
    | _, _ => none

/-- The draft with a plain argument, of which there is one. -/
def setPlain (d : Draft) (value : String) : Option Draft :=
  (givenOnce d.config value).map fun config => { d with config }

/-- The invocation that a draft amounts to. -/
def finish (d : Draft) : Invocation :=
  match d.config with
  | none => .invalid
  | some config =>
    .run { config, input := d.input, format := d.format.getD .console, output := d.output }

end Draft

/-- What an argument is. -/
inductive Argument where
  | help
  | version
  /-- An option whose value is the next argument. -/
  | option (name : OptionName)
  /-- An option with its value. -/
  | assigned (name : OptionName) (value : String)
  | plain (value : String)
  /-- The mark after which every argument is plain. -/
  | endOfOptions
  | unknown
deriving DecidableEq, Repr

/-- The option with a long name. -/
def longOption? : String → Option OptionName
  | "input" => some .input
  | "format" => some .format
  | "output" => some .output
  | _ => none

/-- The option with a short name. -/
def shortOption? : Char → Option OptionName
  | 'i' => some .input
  | 'f' => some .format
  | 'o' => some .output
  | _ => none

/-- What an argument after two dashes is. -/
def Argument.ofLong (body : List Char) : Argument :=
  let word := String.ofList (body.takeWhile (· != '='))
  match longOption? word, body.dropWhile (· != '=') with
  | some name, [] => .option name
  | some name, _ :: value => .assigned name (String.ofList value)
  | none, [] => if word = "help" then .help else if word = "version" then .version else .unknown
  | none, _ => .unknown

/-- What an argument after one dash is. -/
def Argument.ofShort (letter : Char) (attached : List Char) : Argument :=
  match shortOption? letter, attached with
  | some name, [] => .option name
  | some name, '=' :: value => .assigned name (String.ofList value)
  | some name, value => .assigned name (String.ofList value)
  | none, _ => if letter = 'h' then .help else if letter = 'V' then .version else .unknown

/-- What an argument is. -/
def Argument.ofText (text : String) : Argument :=
  match text.toList with
  | ['-', '-'] => .endOfOptions
  | '-' :: '-' :: body => .ofLong body
  | '-' :: letter :: attached => .ofShort letter attached
  | _ => .plain text

/-- The arguments after the end of the options, all of them plain. -/
def readPlain (d : Draft) : List String → Invocation
  | [] => d.finish
  | value :: rest =>
    match d.setPlain value with
    | some d => readPlain d rest
    | none => .invalid

/-- What arguments ask for, after those already read. -/
def readArguments (d : Draft) : List String → Invocation
  | [] => d.finish
  | text :: rest =>
    match Argument.ofText text with
    | .help => .help
    | .version => .version
    | .unknown => .invalid
    | .endOfOptions => readPlain d rest
    | .plain value =>
      match d.setPlain value with
      | some d => readArguments d rest
      | none => .invalid
    | .assigned name value =>
      match d.set name value with
      | some d => readArguments d rest
      | none => .invalid
    | .option name =>
      match rest with
      | [] => .invalid
      | next :: rest =>
        match Argument.ofText next with
        | .plain value =>
          match d.set name value with
          | some d => readArguments d rest
          | none => .invalid
        | _ => .invalid

/-- What a list of arguments asks for. -/
def Invocation.ofArguments (arguments : List String) : Invocation := readArguments {} arguments

end RunCompare.CommandLine
