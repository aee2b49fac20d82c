import Rehost.Guest.Context
import Rehost.Guest.Instruction
import Rehost.Guest.Memory

/-!
# Direct execution

What guest instructions mean, without compiling them: one after the other they act on the registers and
flags of a context, and on memory through a handler. An instruction asks the handler for exactly the
reads and writes that it makes, and changes registers before it writes memory. A lock or repeat prefix
changes nothing here. Flags that the architecture leaves undefined are those of a given latitude.
-/

namespace Rehost.Guest

namespace Interpreter

/-- The word of a register of an address. -/
def addressPart? (regs : RegFile) : Option Register → Option Word
  | none => some 0
  | some (.general r) => some (regs.get r)
  | some _ => none

/-- The address that a memory operand denotes. -/
def address? (regs : RegFile) (m : Mem) : Option Word := do
  if m.segment = some .fs ∨ m.segment = some .gs then none
  let base ← addressPart? regs m.base
  let index ← addressPart? regs m.index
  let sum := base + index * BitVec.ofNat 64 m.scale.factor + m.displacement.signExtend 64
  match m.addressSize.resolve with
  | .s64 => some sum
  | .s32 => some ((sum.setWidth 32).setWidth 64)
  | _ => none

/-- Where the value of an operand is. -/
inductive Location where
  | reg (r : Reg) (high : Bool)
  | memory (address : Word)
  | value (v : Word)
  deriving DecidableEq, Repr

/-- Where an operand of width `w` has its value; an immediate has any width. -/
def location? (regs : RegFile) (w : Width) : Operand → Option Location
  | .reg (.general r) size high => if size.width? = some w then some (.reg r high) else none
  | .reg _ _ _ => none
  | .mem m size => if size.width? = some w then (address? regs m).map .memory else none
  | .imm v _ => some (.value v)

/-- The count of a shift: an immediate byte or `cl`. -/
def count? (regs : RegFile) : Operand → Option Nat
  | .imm v _ => some (v.setWidth 8).toNat
  | .reg (.general r) size high =>
    if r = Reg.rcx ∧ size.width? = some .b8 ∧ high = false then some (regs.part r false .b8).toNat
    else none
  | _ => none

variable {σ : Type}

/-- Guest state during a run. -/
structure State (σ : Type) where
  context : Context
  memory : σ

namespace State

def status (s : State σ) : Status := .ofWord s.context.flags

def setStatus (s : State σ) (status : Status) : State σ :=
  { s with context := { s.context with flags := Status.replace s.context.flags status } }

end State

/-- Why a run ended early. -/
inductive Stop (σ : Type) where
  /-- The handler refused an access. The state is that of the refusal: a refused write leaves the
  registers as the instruction has changed them. -/
  | refused (s : State σ) (address : Word) (fault : Fault)
  /-- The instruction has no meaning. -/
  | undefined

/-- The value at a location. -/
def fetch (handler : Handler σ) (w : Width) (s : State σ) :
    Location → Except (Stop σ) (BitVec w.bits × State σ)
  | .reg r high => .ok (s.context.gp.part r high w, s)
  | .value v => .ok (v.setWidth w.bits, s)
  | .memory address =>
    let reply := handler.read s.memory address w.bytes
    let s := { s with memory := reply.state }
    match reply.result with
    | .ok () => .ok (BitVec.ofNat w.bits (ofBytes reply.buffer.toList), s)
    | .error refusal => .error (.refused s address refusal.toFault)

/-- Puts a value where an operand says. -/
def store (handler : Handler σ) (w : Width) (value : BitVec w.bits) (s : State σ) :
    Location → Except (Stop σ) (State σ)
  | .reg r high =>
    .ok { s with context := { s.context with gp := s.context.gp.setPart r high w value } }
  | .value _ => .error .undefined
  | .memory address =>
    match handler.write s.memory address (toBytes value w.bytes) with
    | (memory, .ok ()) => .ok { s with memory }
    | (memory, .error refusal) => .error (.refused { s with memory } address refusal.toFault)

/-! ### Actions on locations -/

def unary (handler : Handler σ) (f : (n : Nat) → BitVec n → Status → BitVec n × Status) (w : Width)
    (dst : Location) (s : State σ) : Except (Stop σ) (State σ) := do
  let (value, s) ← fetch handler w s dst
  let (result, status) := f w.bits value s.status
  store handler w result (s.setStatus status) dst

def binary (handler : Handler σ)
    (f : (n : Nat) → BitVec n → BitVec n → Status → BitVec n × Status) (w : Width)
    (dst src : Location) (s : State σ) : Except (Stop σ) (State σ) := do
  let (a, s) ← fetch handler w s dst
  let (b, s) ← fetch handler w s src
  let (result, status) := f w.bits a b s.status
  store handler w result (s.setStatus status) dst

def compare (handler : Handler σ) (f : (n : Nat) → BitVec n → BitVec n → Status) (w : Width)
    (dst src : Location) (s : State σ) : Except (Stop σ) (State σ) := do
  let (a, s) ← fetch handler w s dst
  let (b, s) ← fetch handler w s src
  return s.setStatus (f w.bits a b)

def move (handler : Handler σ) (w : Width) (dst src : Location) (s : State σ) :
    Except (Stop σ) (State σ) := do
  let (value, s) ← fetch handler w s src
  store handler w value s dst

/-- Exchanges two values; a register is written before memory. -/
def swap (handler : Handler σ) (w : Width) (dst src : Location) (s : State σ) :
    Except (Stop σ) (State σ) := do
  let (a, s) ← fetch handler w s dst
  let (b, s) ← fetch handler w s src
  match dst with
  | .memory _ =>
    let s ← store handler w a s src
    store handler w b s dst
  | _ =>
    let s ← store handler w b s dst
    store handler w a s src

/-! ### Instructions -/

/-- The width of an operand that can be written to. -/
def destinationWidth? : Operand → Option Width
  | .reg _ size _ => size.width?
  | .mem _ size => size.width?
  | .imm _ _ => none

/-- Acts on one location, at the width of the operand. -/
def withOne (dst : Operand) (s : State σ)
    (act : Width → Location → State σ → Except (Stop σ) (State σ)) : Except (Stop σ) (State σ) :=
  let located := do
    let w ← destinationWidth? dst
    return (w, ← location? s.context.gp w dst)
  match located with
  | some (w, dst) => act w dst s
  | none => .error .undefined

/-- Acts on two locations, at the width of the first operand. -/
def withTwo (dst src : Operand) (s : State σ)
    (act : Width → Location → Location → State σ → Except (Stop σ) (State σ)) :
    Except (Stop σ) (State σ) :=
  let located := do
    let w ← destinationWidth? dst
    return (w, ← location? s.context.gp w dst, ← location? s.context.gp w src)
  match located with
  | some (w, dst, src) => act w dst src s
  | none => .error .undefined

/-- Puts the address of a memory operand into a register. -/
def loadAddress (handler : Handler σ) (dst : Operand) (m : Mem) (s : State σ) :
    Except (Stop σ) (State σ) :=
  match address? s.context.gp m with
  | some address => withOne dst s fun w dst s => store handler w (address.setWidth w.bits) s dst
  | none => .error .undefined

/-- An operation on operands. -/
def operate (latitude : Latitude) (handler : Handler σ) (operation : Operation)
    (operands : Slots Operand) (s : State σ) : Except (Stop σ) (State σ) :=
  match operation.action, operands with
  | .idle, ⟨none, none, none, none⟩ => .ok s
  | .address, ⟨some (.reg r size high), some (.mem m _), none, none⟩ =>
    loadAddress handler (.reg r size high) m s
  | .move, ⟨some dst, some src, none, none⟩ => withTwo dst src s (move handler)
  | .swap, ⟨some dst, some src, none, none⟩ => withTwo dst src s (swap handler)
  | .unary f, ⟨some dst, none, none, none⟩ => withOne dst s (unary handler f)
  | .binary f, ⟨some dst, some src, none, none⟩ => withTwo dst src s (binary handler (f latitude))
  | .compare f, ⟨some dst, some src, none, none⟩ =>
    withTwo dst src s (compare handler (f (latitude.comparing src.isMem)))
  | .shift f, ⟨some dst, some count, none, none⟩ =>
    match count? s.context.gp count with
    | some count =>
      withOne dst s (unary handler fun n value status => f latitude n value count status)
    | none => .error .undefined
  | _, _ => .error .undefined

/-- One instruction. -/
def execute (latitude : Latitude) (handler : Handler σ) (i : Instruction) (s : State σ) :
    Except (Stop σ) (State σ) :=
  match i.mnemonic with
  | .op operation => operate latitude handler operation i.operands s
  | _ => .error .undefined

/-- Instructions one after the other. -/
def run (latitude : Latitude) (handler : Handler σ) :
    List Instruction → State σ → Except (Stop σ) (State σ)
  | [], s => .ok s
  | i :: rest, s => do run latitude handler rest (← execute latitude handler i s)

theorem run_append (latitude : Latitude) (handler : Handler σ) (first second : List Instruction)
    (s : State σ) :
    run latitude handler (first ++ second) s =
      run latitude handler first s >>= run latitude handler second := by
  induction first generalizing s with
  | nil => rfl
  | cons i rest ih =>
    simp only [List.cons_append, run]
    cases execute latitude handler i s with
    | error stop => rfl
    | ok s => exact ih s

end Interpreter

end Rehost.Guest
