import StatesLanguage.CommandLine.Arguments

/-!
# Running a command line

A run is a function of the arguments and of the files that it may read. The
settings file comes first: until it is read, nothing is logged. Then the file, the
document in it, the machine in the document and last the command, each of which
may fail and end the run with exit code 1. The exit code of arguments that are not
well formed is 2.

At the level of details the log is meant for machines with a clock and is not part
of the outcome.
-/

namespace StatesLanguage

namespace CommandLine

/-- What a run leaves behind. -/
structure Outcome where
  /-- The exit code. -/
  exitCode : UInt8
  /-- What is written to standard output. -/
  output : String := ""
  /-- The log, and the failure if there is one, line by line. -/
  messages : List String := []

/-- The version of the program. -/
def version : String :=
  "statecraft 0.3.0"

/-- How the program is called. -/
def usage : String :=
  "usage: statecraft [OPTIONS] validate FILE\n       statecraft [OPTIONS] fmt [--compact] FILE"

/-- What a command leaves behind where it comes to an end, if only to a bad one. -/
structure Report where
  /-- What is written to standard output. -/
  output : String
  /-- Why the exit code is not zero. -/
  failure : Option Failure := none

/-! ### Commands -/

/-- The text of a file. -/
def textOf (files : String → Option String) (path : String) : Except Failure String :=
  match files path with
  | some text => .ok text
  | none => .error (.unreadable path)

/-- The settings of a request. -/
def settingsOf (files : String → Option String) : Option String → Except Failure Settings
  | none => .ok {}
  | some path => do
    let text ← textOf files path
    match Ini.parse? text with
    | some ini => Settings.ofIni ini
    | none => .error (.unreadable path)

/-- Runs the command of a request. -/
def report (files : String → Option String) (settings : Settings) (r : Request)
    (codec : Json.Codec := .nearest) : Logged Failure Report := do
  Logged.event (.settings settings.description)
  let text ← textOf files r.file
  match r.verb with
  | .validate => do
    let problems ← Command.validate text codec
    let output := String.join (problems.map fun e => e.message ++ "\n")
    if problems.isEmpty then return { output }
    else return { output, failure := some (.problemsFound problems.length r.file) }
  | .format => do
    let layout := if settings.pretty && !r.compact then .pretty else .compact
    let document ← Command.format layout text codec
    return { output := document ++ "\n" }

/-! ### Outcomes -/

/-- The line of an event in the log. -/
def eventLine (e : Event) : String :=
  "[" ++ e.level.name ++ "] " ++ e.message

/-- The lines of the events that are shown. -/
def shown (v : Verbosity) (log : List Event) : List String :=
  if v = .upTo .trace then [] else (log.filter fun e => v.admits e.level).map eventLine

/-- The outcome of a failure. -/
def failed (messages : List String) (output : String) (f : Failure) : Outcome :=
  ⟨1, output, messages ++ ["Error: " ++ f.message]⟩

/-- The outcome of a request. -/
def runRequest (files : String → Option String) (r : Request)
    (codec : Json.Codec := .nearest) : Outcome :=
  match settingsOf files r.config with
  | .error f => failed [] "" f
  | .ok settings =>
    let x := report files settings r codec
    let messages := shown (r.verbosity.getD (.ofName settings.logLevel)) x.log
    match x.outcome with
    | .error f => failed messages "" f
    | .ok ⟨output, some f⟩ => failed messages output f
    | .ok ⟨output, none⟩ => ⟨0, output, messages⟩

/-- The outcome of a command line. -/
def run (files : String → Option String) (args : List String)
    (codec : Json.Codec := .nearest) : Outcome :=
  match parse args with
  | .ok r => runRequest files r codec
  | .error .usage => { exitCode := 2, messages := [usage] }
  | .error .version => { exitCode := 0, output := version ++ "\n" }
  | .error .help => { exitCode := 0, output := usage ++ "\n" }

/-- The files that a command line may read. -/
def filesOf (args : List String) : List String :=
  match parse args with
  | .ok r => r.config.toList ++ [r.file]
  | .error _ => []

end CommandLine

end StatesLanguage
