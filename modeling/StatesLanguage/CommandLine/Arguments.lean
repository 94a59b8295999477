import StatesLanguage.Settings.Basic

/-!
# Arguments

A command line names one of two commands and a file. Options may stand in front
of the command or behind it; of an option that stands in both places the latter
counts, while in one place no option may be given twice. The argument `--` ends the
options, so that a file may have any name.

Arguments that do not follow this form are refused as a whole, without a reason. A
request for the version or for help is granted where it is met, unless an argument
in front of it is none that could stand there; an option that is given twice, or
without a value that fits, counts only at the end.
-/

namespace StatesLanguage

namespace CommandLine

/-- The commands. -/
inductive Verb where
  /-- Lists the problems of a machine. -/
  | validate
  /-- Writes a machine again. -/
  | format
deriving DecidableEq

/-- The command of a word. -/
def Verb.ofName? (s : String) : Option Verb :=
  if s = "validate" then some .validate else if s = "fmt" then some .format else none

/-- The options. -/
inductive Opt where
  /-- Takes the settings file. -/
  | config
  /-- Takes the name of the verbosity. -/
  | logLevel
  /-- Logs everything. -/
  | trace
  /-- Logs nothing. -/
  | silent
  /-- Writes documents on one line. -/
  | compact
  /-- Asks for the version. -/
  | version
  /-- Asks for help. -/
  | help
deriving DecidableEq

namespace Opt

/-- The option of a long name. -/
def ofLong? (name : String) : Option Opt :=
  if name = "config" then some .config
  else if name = "log-level" then some .logLevel
  else if name = "trace" then some .trace
  else if name = "silent" then some .silent
  else if name = "compact" then some .compact
  else if name = "version" then some .version
  else if name = "help" then some .help
  else none

/-- The option of a short name. -/
def ofShort? (name : Char) : Option Opt :=
  if name = 'c' then some .config
  else if name = 'L' then some .logLevel
  else if name = 'V' then some .version
  else if name = 'h' then some .help
  else none

/-- Whether an option takes a value. -/
def takesValue : Opt → Bool
  | .config => true
  | .logLevel => true
  | _ => false

/-- Whether an option may stand in front of the commands, or behind one. -/
def isAllowed : Opt → Option Verb → Bool
  | .compact, place => place == some .format
  | .version, place => place == none
  | _, _ => true

end Opt

/-! ### The forms of arguments -/

/-- The form of an argument. -/
inductive Form where
  /-- The end of the options. -/
  | separator
  /-- An option, if its name is one, and the value attached to it. -/
  | opt (opt : Option Opt) (attached : Option String)
  /-- Anything else. -/
  | plain

/-- The form of an argument with one dash. Only a value may follow the name of the
option, at once or behind `=`; what follows an option that takes none is not looked
at. -/
def shortForm (name : Char) (rest : List Char) : Form :=
  match Opt.ofShort? name with
  | none => .opt none none
  | some opt =>
    if opt.takesValue then
      match rest with
      | [] => .opt opt none
      | '=' :: value => .opt opt (some (.ofList value))
      | value => .opt opt (some (.ofList value))
    else .opt opt none

/-- The form of an argument with two dashes. -/
def longForm (cs : List Char) : Form :=
  let opt := Opt.ofLong? (.ofList (cs.takeWhile (· ≠ '=')))
  match cs.dropWhile (· ≠ '=') with
  | [] => .opt opt none
  | _ :: value => .opt opt (some (.ofList value))

/-- The form of an argument. -/
def formOf (arg : String) : Form :=
  match arg.toList with
  | ['-', '-'] => .separator
  | '-' :: '-' :: cs => longForm cs
  | '-' :: name :: rest => shortForm name rest
  | _ => .plain

/-- Whether an argument can be the value of the option in front of it. -/
def isValue (arg : String) : Bool :=
  match formOf arg with
  | .plain => true
  | _ => false

/-! ### Arguments in one place -/

/-- What ends the reading of arguments early. -/
inductive Stop where
  /-- The arguments are not well formed. -/
  | usage
  /-- The version is asked for. -/
  | version
  /-- Help is asked for. -/
  | help
deriving DecidableEq

/-- The options and the file that were given in one place. -/
structure Given where
  /-- The settings file. -/
  config : Option String := none
  /-- The name of the verbosity. -/
  logLevel : Option String := none
  /-- Whether everything is logged. -/
  trace : Bool := false
  /-- Whether nothing is logged. -/
  silent : Bool := false
  /-- Whether documents are written on one line. -/
  compact : Bool := false
  /-- The file. -/
  file : Option String := none
  /-- Whether an option was given twice, or without a value that fits. -/
  spoiled : Bool := false

namespace Given

/-- Takes an option with a value. -/
def setValue (g : Given) (value : String) : Opt → Given
  | .config =>
    if g.config.isSome then { g with spoiled := true } else { g with config := some value }
  | .logLevel =>
    if g.logLevel.isSome || !Verbosity.all.any fun v => v.name == value
    then { g with spoiled := true }
    else { g with logLevel := some value }
  | _ => g

/-- Takes an option without a value. -/
def setFlag (g : Given) : Opt → Given
  | .trace => if g.trace then { g with spoiled := true } else { g with trace := true }
  | .silent => if g.silent then { g with spoiled := true } else { g with silent := true }
  | .compact => if g.compact then { g with spoiled := true } else { g with compact := true }
  | _ => g

/-- Takes the file. -/
def setFile? (g : Given) (file : String) : Option Given :=
  if g.file.isSome then none else some { g with file := some file }

end Given

/-! ### Whole command lines -/

/-- What a command line asks for. -/
structure Request where
  /-- The command. -/
  verb : Verb
  /-- The file. -/
  file : String
  /-- The settings file. -/
  config : Option String
  /-- The verbosity, if an option says so. -/
  verbosity : Option Verbosity
  /-- Whether the document is written on one line. -/
  compact : Bool

/-- What is asked for by what was given in front of a command and behind it. -/
def Request.of? (verb : Verb) (front behind : Given) : Option Request := do
  guard (!front.spoiled && !behind.spoiled)
  let file ← behind.file
  let verbosity :=
    if front.trace || behind.trace then some (.upTo .trace)
    else if front.silent || behind.silent then some .off
    else (behind.logLevel.or front.logLevel).map .ofName
  return {
    verb
    file
    config := behind.config.or front.config
    verbosity
    compact := behind.compact }

/-- Refuses arguments that are not well formed. -/
def orUsage {α : Type} : Option α → Except Stop α
  | some a => .ok a
  | none => .error .usage

/-- Whether the help command is followed by the names of commands, at most one of
them. -/
def isHelpTopic : List String → Bool
  | [] => true
  | [name] => name == "help" || (Verb.ofName? name).isSome
  | _ => false

/-- Reads arguments in front of the commands, or behind one. -/
def read (front g : Given) (place : Option Verb) : List String → Except Stop Request
  | [] => do
    let verb ← orUsage place
    orUsage (Request.of? verb front g)
  | arg :: rest =>
    match formOf arg with
    | .separator => do
      let verb ← orUsage place
      let g ← orUsage (rest.foldlM Given.setFile? g)
      orUsage (Request.of? verb front g)
    | .plain =>
      match place with
      | some _ => do
        let g ← orUsage (g.setFile? arg)
        read front g place rest
      | none =>
        match Verb.ofName? arg with
        | some verb => read g {} (some verb) rest
        | none => .error (if arg = "help" ∧ isHelpTopic rest then .help else .usage)
    | .opt none _ => .error .usage
    | .opt (some opt) attached =>
      if !opt.isAllowed place then .error .usage
      else if opt.takesValue then
        match attached, rest with
        | some value, rest => read front (g.setValue value opt) place rest
        | none, [] => read front { g with spoiled := true } place []
        | none, value :: rest =>
          if isValue value then read front (g.setValue value opt) place rest
          else read front { g with spoiled := true } place (value :: rest)
      else if attached.isSome then .error .usage
      else
        match opt with
        | .version => .error .version
        | .help => .error .help
        | flag => read front (g.setFlag flag) place rest

/-- What arguments ask for. -/
def parse (args : List String) : Except Stop Request :=
  read {} {} none args

end CommandLine

end StatesLanguage
