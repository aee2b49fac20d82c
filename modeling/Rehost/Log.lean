import Rehost.Text.Hex
import Rehost.Usage

/-!
# Log lines

Events of a trial, each with a level and a line of text. A line shows the level, a message and fields
`name=value`. Coloured output paints the level and the labels in messages; escape characters inside a
message are shown as text, so that a message cannot change the terminal.
-/

namespace Rehost

/-! ### Levels -/

inductive Level where
  | error | warn | info | debug | trace
  deriving DecidableEq, Repr

namespace Level

def name : Level → String
  | error => "ERROR"
  | warn => "WARN"
  | info => "INFO"
  | debug => "DEBUG"
  | trace => "TRACE"

/-- How much is shown at this level: one for errors alone, five for everything. -/
def verbosity : Level → Nat
  | error => 1
  | warn => 2
  | info => 3
  | debug => 4
  | trace => 5

/-- The colour of a level, as a terminal code. -/
def colour : Level → Nat
  | error => 31
  | warn => 33
  | info => 32
  | debug => 34
  | trace => 35

end Level

/-! ### Painting -/

/-- Starts an escape sequence of a terminal. -/
def escape : String := "\x1b["

/-- The tones of labels. -/
inductive Tone where
  | info | good | bad
  deriving DecidableEq, Repr

def Tone.code : Tone → Nat
  | info => 96
  | good => 92
  | bad => 91

/-- A label in bold and in a bright colour, or plain. -/
def paint (text : String) (tone : Tone) (coloured : Bool) : String :=
  if coloured then s!"{escape}1m{escape}{tone.code}m{text}{escape}39m{escape}0m" else text

/-- Text with every escape character spelled out. -/
def spellEscapes (text : String) : String :=
  String.join (text.toList.map fun c => if c = '\x1b' then "\\x1b" else c.toString)

/-! ### Events -/

inductive Event where
  | created (address : Word)
  | analysed (usage : Usage)
  | compiled (address : Word) (scheduled emitted : Nat) (usage : Usage) (bytes : Nat)
  | generated (address : Word) (bytes : Nat)
  | failed (address : Word) (error : Error)
  | installed (live codeBytes : Nat)
  | executing (address : Word)
  /-- The rate of the last interval, per second. -/
  | rate (perSecond : Nat)
  /-- All executions, with the time they took if it is told, and whether the result was right. -/
  | finished (total : Nat) (timing : Option String) (ok : Bool)
  | releasing (blocks : Nat)
  | outlived

namespace Event

def level : Event → Level
  | created _ | compiled .. | releasing _ => .debug
  | analysed _ | executing _ => .trace
  | generated .. | installed .. | rate _ | finished .. => .info
  | failed .. | outlived => .warn

/-- The label of lines about blocks. -/
def unitLabel (coloured : Bool) : String := paint "UNIT" .info coloured

/-- The label of lines about executions. -/
def rateLabel (coloured : Bool) : String := paint "RATE" .good coloured

def verdict (coloured ok : Bool) : String :=
  if ok then paint "ok" .good coloured else paint "MISMATCH" .bad coloured

def message (coloured : Bool) : Event → String
  | created _ => "created unit"
  | analysed _ => "analysed context usage"
  | compiled .. => "compiled unit"
  | generated address bytes =>
    s!"{unitLabel coloured} generated {Text.hex address.toNat} ({bytes} bytes)"
  | failed .. => "unit generation failed"
  | installed live codeBytes =>
    s!"{unitLabel coloured} {live} live functions, {codeBytes} bytes of native code"
  | executing _ => "executing unit"
  | rate perSecond => s!"{rateLabel coloured} {perSecond} executions/s"
  | finished total timing ok =>
    let time := timing.getD ""
    s!"{rateLabel coloured} {total} executions{time}, result {verdict coloured ok}"
  | releasing _ => "releasing all units"
  | outlived => "native functions outlived their units"

def fields : Event → List (String × String)
  | created address => [("vip", Text.hex address.toNat)]
  | analysed usage =>
    [("flags_in", Text.hex usage.flagsIn.toNat), ("flags_out", Text.hex usage.flagsOut.toNat),
     ("read", Text.hexPadded 4 usage.read.mask.toNat), ("base", usage.base.name)]
  | compiled address scheduled emitted usage bytes =>
    [("vip", Text.hex address.toNat), ("scheduled", toString scheduled),
     ("emitted", toString emitted), ("base", usage.base.name),
     ("touches_memory", toString usage.touchesMemory), ("bytes", toString bytes)]
  | failed address error => [("vip", Text.hex address.toNat), ("error", error.message)]
  | executing address => [("vip", Text.hex address.toNat)]
  | releasing blocks => [("units", toString blocks)]
  | _ => []

/-- A field after the message. Coloured, its name is in italics and the sign dimmed. -/
def field (coloured : Bool) (name value : String) : String :=
  if coloured then s!" {escape}3m{name}{escape}0m{escape}2m={escape}0m{value}" else s!" {name}={value}"

/-- The level as it stands in a line, five columns wide. -/
def levelText (coloured : Bool) (level : Level) : String :=
  let padding := String.ofList (List.replicate (5 - level.name.length) ' ')
  if coloured then s!"{escape}{level.colour}m{padding}{level.name}{escape}0m"
  else padding ++ level.name

/-- The line of an event. -/
def line (coloured : Bool) (event : Event) : String :=
  levelText coloured event.level ++ " " ++ spellEscapes (event.message coloured) ++
    String.join (event.fields.map fun (name, value) => field coloured name value)

end Event

end Rehost
