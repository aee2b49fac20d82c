import Rehost.Text.Number

/-!
# Settings

A trial runs for a number of seconds, over a number of blocks, with a report at intervals. Each setting
has a default, which a variable of the environment overrides, which an argument overrides. Variables
are read first, in a fixed order; then the arguments from left to right; then the result is checked.
-/

namespace Rehost

/-! ### Settings and their names -/

structure Settings where
  seconds : Nat := 3
  units : Nat := 1
  reportMillis : Nat := 1000
  help : Bool := false
  deriving DecidableEq, Repr

/-- A setting with a number. -/
inductive Setting where
  | seconds | units | reportMillis
  deriving DecidableEq, Repr

namespace Setting

/-- In the order in which their variables are read. -/
def all : List Setting := [seconds, units, reportMillis]

def variableName : Setting → String
  | seconds => "XB_RUN_SECONDS"
  | units => "XB_RUN_UNITS"
  | reportMillis => "XB_RUN_REPORT_MS"

def argument : Setting → String
  | seconds => "--seconds"
  | units => "--units"
  | reportMillis => "--report-ms"

def ofArgument? (argument : String) : Option Setting := all.find? (·.argument = argument)

end Setting

def Settings.set (settings : Settings) (setting : Setting) (value : Nat) : Settings :=
  match setting with
  | .seconds => { settings with seconds := value }
  | .units => { settings with units := value }
  | .reportMillis => { settings with reportMillis := value }

inductive SettingsError where
  | invalidVariable (error : Text.NumberError)
  | unknownArgument (argument : String)
  | missingValue (setting : Setting)
  | invalidValue (setting : Setting) (value : String)
  | noUnits
  | noInterval
  deriving DecidableEq, Repr

def SettingsError.message : SettingsError → String
  | invalidVariable error => error.message
  | unknownArgument argument => s!"unknown argument '{argument}'"
  | missingValue setting => s!"missing value for {setting.argument}"
  | invalidValue setting value => s!"invalid {setting.argument} value '{value}'"
  | noUnits => "unit count must be at least 1"
  | noInterval => "report interval must be positive"

namespace Settings

/-! ### Loading -/

/-- A variable of the environment. The value of one that is set need not be text. -/
inductive Variable where
  | unset
  | text (value : String)
  | unreadable
  deriving DecidableEq, Repr

def Variable.isSet : Variable → Bool
  | unset => false
  | _ => true

/-- The value of a variable that is set to text. -/
def Variable.text? : Variable → Option String
  | text value => some value
  | _ => none

/-- The variables of the environment, by name. -/
abbrev Environment := String → Variable

/-- Settings after the given variables were read. One whose value is not text is passed over as if it were not set. -/
def readVariables (environment : Environment) :
    List Setting → Settings → Except SettingsError Settings
  | [], settings => .ok settings
  | setting :: rest, settings =>
    match (environment setting.variableName).text? with
    | none => readVariables environment rest settings
    | some value =>
      match Text.readNumber value with
      | .ok number => readVariables environment rest (settings.set setting number)
      | .error error => .error (.invalidVariable error)

/-- Settings after the arguments were read. What follows the name of a setting is its value, whatever it
looks like. -/
def readArguments : List String → Settings → Except SettingsError Settings
  | [], settings => .ok settings
  | argument :: rest, settings =>
    if argument = "-h" ∨ argument = "--help" then readArguments rest { settings with help := true }
    else
      match Setting.ofArgument? argument with
      | none => .error (.unknownArgument argument)
      | some setting =>
        match rest with
        | [] => .error (.missingValue setting)
        | value :: rest =>
          match Text.readNumber value with
          | .ok number => readArguments rest (settings.set setting number)
          | .error _ => .error (.invalidValue setting value)

def check (settings : Settings) : Except SettingsError Unit :=
  if settings.units = 0 then .error .noUnits
  else if settings.reportMillis = 0 then .error .noInterval
  else .ok ()

def load (environment : Environment) (arguments : List String) : Except SettingsError Settings := do
  let settings ← readVariables environment Setting.all {}
  let settings ← readArguments arguments settings
  check settings
  return settings

end Settings

end Rehost
