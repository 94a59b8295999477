import StatesLanguage.Command
import StatesLanguage.Settings.Ini

/-!
# Settings

The command line has two settings: whether documents are set out in lines, and
which events are shown if no option says so. A settings file may override either.
-/

namespace StatesLanguage

/-! ### Verbosity -/

/-- Which events of a log are shown. -/
inductive Verbosity where
  /-- None. -/
  | off
  /-- Those of a level and the severer ones. -/
  | upTo (level : LogLevel)
deriving DecidableEq

namespace Verbosity

/-- Every verbosity. -/
def all : List Verbosity :=
  LogLevel.all.map .upTo ++ [.off]

/-- The name of a verbosity. -/
def name : Verbosity → String
  | .off => "off"
  | .upTo level => level.name

/-- The verbosity of a name; an unknown name stands for that of results. -/
def ofName (s : String) : Verbosity :=
  (all.find? fun v => v.name == s).getD (.upTo .info)

/-- Whether events of a level are shown. -/
def admits : Verbosity → LogLevel → Bool
  | .off, _ => false
  | .upTo bound, level => level.rank ≤ bound.rank

end Verbosity

/-! ### Settings -/

/-- The settings of the command line. -/
structure Settings where
  /-- Whether documents are set out in lines. -/
  pretty : Bool := true
  /-- The name of the verbosity. -/
  logLevel : String := "info"
deriving DecidableEq

namespace Settings

/-- The truth value of a word. -/
def boolean? (s : String) : Option Bool :=
  if s = "true" then some true else if s = "false" then some false else none

/-- The settings of a file. What it does not say keeps its default. -/
def ofIni (ini : Ini) : Except Failure Settings := do
  let settings : Settings := { logLevel := (ini.get? "cli" "log_level").getD "info" }
  match ini.get? "cli" "pretty" with
  | none => return settings
  | some s =>
    match boolean? s with
    | some pretty => return { settings with pretty }
    | none => .error (.notBoolean s)

/-- A description of the settings for human readers. -/
def description (s : Settings) : String :=
  let pretty := if s.pretty then "true" else "false"
  "Settings \x7b pretty: " ++ pretty ++ ", log_level: " ++ Text.quoted s.logLevel ++ " \x7d"

end Settings

end StatesLanguage
