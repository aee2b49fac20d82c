import Rehost.Settings
import Rehost.Text.Quoted
import Rehost.Trial

/-!
# The command line

What the command does before and after a trial: settings or a refusal, the usage text, which events are
shown and in which form, and the line that reports a failure.
-/

namespace Rehost.Command

def usage : List String :=
  ["Usage:",
   "  xb-run [--seconds <n>] [--units <n>] [--report-ms <n>]",
   "",
   "Environment:",
   "  XB_RUN_SECONDS    run time in seconds (default 3)",
   "  XB_RUN_UNITS      translated units to rotate through (default 1)",
   "  XB_RUN_REPORT_MS  rate report interval (default 1000)",
   "  RUST_LOG          log filter (default info)"]

/-- The variables of the environment that the command reads itself. -/
def readNames : List String := Setting.all.map Setting.variableName ++ ["NO_COLOR", "FORCE_COLOR"]

/-- What the terminal and the log filter are, as the libraries for them find out: which events the filter shows, if
there is a filter and it can be read, and whether output is shown in colour. -/
structure Console where
  filter : Option (Event → Bool)
  coloured : Bool

/-- How events are shown. -/
structure Display where
  shows : Event → Bool
  coloured : Bool

/-- Without a filter, what is worth knowing is shown and the details are not. Colour is forbidden by one variable, or
else forced by another, or else left to the terminal. -/
def display (environment : Settings.Environment) (console : Console) : Display where
  shows := console.filter.getD fun event => event.level.verbosity ≤ Level.info.verbosity
  coloured := !(environment "NO_COLOR").isSet && ((environment "FORCE_COLOR").isSet || console.coloured)

/-- The line of an event, if it is shown. -/
def Display.line? (display : Display) (event : Event) : Option String :=
  if display.shows event then some (event.line display.coloured) else none

/-- A line after the time it was written, which is dimmed in coloured output. -/
def stamped (coloured : Bool) (stamp line : String) : String :=
  let time := if coloured then s!"{escape}2m{stamp}{escape}0m" else stamp
  time ++ " " ++ line

/-- The report of settings that cannot be used. -/
def settingsReport : SettingsError → String
  | .invalidVariable error => "Error: ParseIntError \x7b kind: " ++ error.kind ++ " \x7d"
  | error => "Error: " ++ Text.quote error.message

def failureReport (failure : Trial.Failure) : String := "Error: " ++ Text.quote failure.message

/-- What a finished command has written, and its exit code. -/
structure Output where
  code : Nat
  lines : List String := []
  report : Option String := none
  deriving DecidableEq, Repr

/-- The command with a given number of executions in place of a running time. -/
def run [Linkage] (platforms : Nat → Machine.Platform) (environment : Settings.Environment) (console : Console)
    (arguments : List String) (executions : Nat) : Output :=
  match Settings.load environment arguments with
  | .error error => { code := 1, report := some (settingsReport error) }
  | .ok settings =>
    if settings.help then { code := 0, lines := usage }
    else
      let trial := Trial.run platforms settings.units executions
      let lines := trial.events.filterMap (display environment console).line?
      match trial.result with
      | .ok () => { code := 0, lines }
      | .error failure => { code := 1, lines, report := some (failureReport failure) }

end Rehost.Command
