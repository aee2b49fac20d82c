import Rehost.Command
import Rehost.Text.Elapsed
import Std.Time.DateTime

/-!
# The command

Reads the environment and the clock, runs a trial for the time that the settings give, and writes its
events as they happen. What the system gives it is a parameter.
-/

namespace Rehost.Main

open Command (Console Display)

/-- What the command asks of the system: the variables of the environment, what the terminal and the log filter are,
and what each execution finds. -/
structure System where
  readVariable : String → IO Settings.Variable
  console : IO Console
  platform : IO Machine.Platform

/-- The variables that the command reads, as they are now. -/
def System.environment (system : System) : IO Settings.Environment := do
  let entries ← Command.readNames.mapM fun name => do return (name, ← system.readVariable name)
  return fun name => (entries.lookup name).getD .unset

/-- The time of day and the date, down to microseconds. -/
def stamp : IO String := do
  let now := Std.Time.PlainDateTime.ofWallTime ((← Std.Time.Timestamp.now).toWallTime .zero)
  let two (n : Int) : String := Text.decimalPadded 2 n.toNat
  let date := Text.decimalPadded 4 now.year.toInt.toNat ++ "-" ++ two now.month.toInt ++ "-" ++
    two now.day.toInt
  let time := two now.hour.toInt ++ ":" ++ two now.minute.toInt ++ ":" ++ two now.second.toInt
  let micros := Text.decimalPadded 6 (now.nanosecond.toInt.toNat / 1000)
  return date ++ "T" ++ time ++ "." ++ micros ++ "Z"

/-- Writes an event, if it is shown. -/
def report (display : Display) (event : Event) : IO Unit := do
  match display.line? event with
  | none => return
  | some line =>
    let stamp ← stamp
    IO.println (Command.stamped display.coloured stamp line)

def reportAll (display : Display) (events : List Event) : IO Unit := events.forM (report display)

/-- Writes what a part of the trial tells, and gives how it ended. -/
def follow {α : Type} (display : Display) (part : Trial.Logged α) : IO (Except Trial.Failure α) := do
  reportAll display part.events
  return part.result

/-- The state of the clock: when the trial and the current interval began, and the executions in it. -/
structure Watch where
  started : Nat
  intervalStarted : Nat
  inInterval : Nat := 0

/-- Executes until the time is up, at least once. -/
partial def execute [Linkage] (system : System) (settings : Settings) (display : Display) (watch : Watch)
    (session : Trial.Session) : IO (Except Trial.Failure Trial.Session) := do
  match ← follow display (Trial.iterate (← system.platform) session) with
  | .error failure => return .error failure
  | .ok session =>
    let inInterval := watch.inInterval + 1
    let now ← IO.monoNanosNow
    let interval := now - watch.intervalStarted
    let watch ←
      if settings.reportMillis * 1000000 ≤ interval then do
        report display (.rate (Text.perSecond inInterval interval))
        pure { watch with intervalStarted := ← IO.monoNanosNow, inInterval := 0 }
      else pure { watch with inInterval }
    if settings.seconds * 1000000000 ≤ (← IO.monoNanosNow) - watch.started then return .ok session
    else execute system settings display watch session

/-- A trial by the clock. -/
def trial [Linkage] (system : System) (settings : Settings) (display : Display) : IO (Except Trial.Failure Unit) := do
  match ← follow display (Trial.prepare settings.units) with
  | .error failure => return .error failure
  | .ok session =>
    let started ← IO.monoNanosNow
    match ← execute system settings display { started, intervalStarted := started } session with
    | .error failure => return .error failure
    | .ok session =>
      let nanos := (← IO.monoNanosNow) - started
      follow display (Trial.finish session (some (Trial.timing session.total nanos)))

/-- Reports a failure, with the exit code for it. -/
def fail (text : String) : IO UInt32 := do
  IO.eprintln text
  return 1

/-- The command line. -/
def command [Linkage] (system : System) (arguments : List String) : IO UInt32 := do
  let environment ← system.environment
  match Settings.load environment arguments with
  | .error error => fail (Command.settingsReport error)
  | .ok settings =>
    if settings.help then
      Command.usage.forM fun line => IO.println line
      return 0
    let display := Command.display environment (← system.console)
    match ← trial system settings display with
    | .ok () => return 0
    | .error failure => fail (Command.failureReport failure)

end Rehost.Main
