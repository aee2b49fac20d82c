import Rehost.Guest.Context
import Rehost.Host.Listing

/-!
# Machine state

The part of an x86-64 machine that generated code sees: registers, flags, the context it was called on,
and memory elsewhere as aligned words, among them its stack. An access is resolved by its address to a
`Place`; an address inside the context that is not the start of a slot, or a misaligned one outside it,
has none, and the machine does not go on from there.
-/

namespace Rehost

/-- The address that a memory operand denotes. -/
def Host.Mem.address (m : Host.Mem) (regs : RegFile) : Word :=
  let base := m.base.elim 0 regs.get
  let index := m.index.elim 0 regs.get
  let sum := base + index * BitVec.ofNat 64 m.scale + m.displacement.signExtend 64
  if m.addr32 then (sum.setWidth 32).setWidth 64 else sum

namespace Machine

open Guest (Context)
open Host (RegOperand)

/-- Where an access goes. -/
inductive Place where
  | slot (s : Context.Slot)
  | cell (address : Word)
  deriving DecidableEq, Repr

/-- The place at an address, for a context at `contextAddress`. -/
def Place.ofAddress? (contextAddress address : Word) : Option Place :=
  let offset := (address - contextAddress).toNat
  if offset < Context.size then (Context.Slot.ofOffset? offset).map .slot
  else if address.toNat % 8 = 0 then some (.cell address)
  else none

structure State where
  regs : RegFile
  flags : Word
  cells : Word → Word
  context : Context

namespace State

def status (s : State) : Status := .ofWord s.flags

def setStatus (s : State) (status : Status) : State :=
  { s with flags := Status.replace s.flags status }

def get (s : State) (r : Reg) : Word := s.regs.get r

def set (s : State) (r : Reg) (value : Word) : State := { s with regs := s.regs.set r value }

/-- The word at a place. -/
def load (s : State) : Place → Word
  | .slot slot => s.context.get slot
  | .cell address => s.cells address

def store (s : State) (place : Place) (value : Word) : State :=
  match place with
  | .slot slot => { s with context := s.context.set slot value }
  | .cell address =>
    { s with cells := fun other => if other = address then value else s.cells other }

end State

/-! ### Operands -/

/-- An operand with its address already computed. -/
inductive Target where
  | reg (r : RegOperand)
  | place (p : Place) (width : Width)
  | value (v : Word)

namespace Target

/-- What an operand denotes in a state, as far as it can be computed on. -/
def ofOperand? (contextAddress : Word) (regs : RegFile) : Host.Operand → Option Target
  | .reg r => some (.reg r)
  | .imm v _ => some (.value v)
  | .mem m => (Place.ofAddress? contextAddress (m.address regs)).map (.place · m.width)
  | .label _ => none

/-- The width of an operand that can be written to. -/
def width? : Target → Option Width
  | reg r => some r.width
  | place _ width => some width
  | value _ => none

/-- The value of an operand of width `w`; an immediate has any width. -/
def get? (target : Target) (s : State) (w : Width) : Option (BitVec w.bits) :=
  match target with
  | reg r => if r.width = w then some (s.regs.part r.reg r.high w) else none
  | place p width => if width = w then some ((s.load p).setWidth w.bits) else none
  | value v => some (v.setWidth w.bits)

/-- Writes an operand of width `w`. In memory only the bytes of the operand change. -/
def put? (target : Target) (s : State) (w : Width) (v : BitVec w.bits) : Option State :=
  match target with
  | reg r => if r.width = w then some { s with regs := s.regs.setPart r.reg r.high w v } else none
  | place p width => if width = w then some (s.store p (setLow (s.load p) v)) else none
  | value _ => none

end Target

end Machine

end Rehost
