import Rehost.Machine.State

/-!
# One instruction

What an instruction does to the machine. `none` means that the machine is stuck: the instruction is
not one that generated code contains, or it accesses memory that is nobody's.
-/

namespace Rehost.Machine

open Host (Instr Operand)

/-- What lies around generated code: the processor's latitude, the address of the context, and the
functions it can call. A function is given by its effect between call and return; `σ` is whatever else
it acts on. -/
structure Env (σ : Type) where
  latitude : Latitude
  contextAddress : Word
  function : (address : Word) → σ → State → Option (σ × State)

/-- Where execution goes on. -/
inductive Next where
  | onward
  | goto (l : Host.Label)
  | leave
  deriving DecidableEq, Repr

/-- The count operand of a shift: an immediate byte or `cl`. -/
def count? (regs : RegFile) : Operand → Option Nat
  | .imm value _ => some (value.setWidth 8).toNat
  | .reg r => if r = ⟨.rcx, .b8, false⟩ then some (regs.part .rcx false .b8).toNat else none
  | _ => none

/-- An operation with one operand. -/
def unary (f : (n : Nat) → BitVec n → Status → BitVec n × Status) (dst : Target) (s : State) :
    Option State := do
  let w ← dst.width?
  let value ← dst.get? s w
  let (result, status) := f w.bits value s.status
  dst.put? (s.setStatus status) w result

/-- An operation that changes its first operand by its second. -/
def binary (f : (n : Nat) → BitVec n → BitVec n → Status → BitVec n × Status)
    (dst src : Target) (s : State) : Option State := do
  let w ← dst.width?
  let a ← dst.get? s w
  let b ← src.get? s w
  let (result, status) := f w.bits a b s.status
  dst.put? (s.setStatus status) w result

def compare (f : (n : Nat) → BitVec n → BitVec n → Status) (dst src : Target) (s : State) :
    Option State := do
  let w ← dst.width?
  let a ← dst.get? s w
  let b ← src.get? s w
  return s.setStatus (f w.bits a b)

def shift (f : (n : Nat) → BitVec n → Nat → Status → BitVec n × Status) (dst : Target) (count : Nat)
    (s : State) : Option State := do
  let w ← dst.width?
  let value ← dst.get? s w
  let (result, status) := f w.bits value count s.status
  dst.put? (s.setStatus status) w result

def move (dst src : Target) (s : State) : Option State := do
  let w ← dst.width?
  let value ← src.get? s w
  dst.put? s w value

def swap (dst src : Target) (s : State) : Option State := do
  let w ← dst.width?
  let a ← dst.get? s w
  let b ← src.get? s w
  let s ← dst.put? s w b
  src.put? s w a

/-- Executes an operation. Operands are resolved before anything changes. -/
def operate (latitude : Latitude) (contextAddress : Word) (operation : Operation)
    (operands : Slots Operand) (s : State) : Option State :=
  let target := Target.ofOperand? contextAddress s.regs
  match operation.action, operands with
  | .idle, ⟨none, none, none, none⟩ => some s
  | .address, ⟨some (.reg dst), some (.mem m), none, none⟩ =>
    (Target.reg dst).put? s dst.width ((m.address s.regs).setWidth dst.width.bits)
  | .move, ⟨some dst, some src, none, none⟩ => do move (← target dst) (← target src) s
  | .swap, ⟨some dst, some src, none, none⟩ => do swap (← target dst) (← target src) s
  | .unary f, ⟨some dst, none, none, none⟩ => do unary f (← target dst) s
  | .binary f, ⟨some dst, some src, none, none⟩ => do
    binary (f latitude) (← target dst) (← target src) s
  | .compare f, ⟨some dst, some src, none, none⟩ => do
    compare (f (latitude.comparing src.isMem)) (← target dst) (← target src) s
  | .shift f, ⟨some dst, some count, none, none⟩ => do
    shift (f latitude) (← target dst) (← count? s.regs count) s
  | _, _ => none

/-! ### The stack -/

/-- Puts a word on the stack. -/
def push (contextAddress : Word) (value : Word) (s : State) : Option State := do
  let top := s.get .rsp - 8
  let place ← Place.ofAddress? contextAddress top
  return (s.store place value).set .rsp top

/-- Takes a word off the stack. -/
def pop (contextAddress : Word) (s : State) : Option (Word × State) := do
  let top := s.get .rsp
  let place ← Place.ofAddress? contextAddress top
  return (s.load place, s.set .rsp (top + 8))

/-- The operand of a stack instruction: 64 bits of a register or of memory. -/
def stackTarget? (contextAddress : Word) (regs : RegFile) (operand : Operand) : Option Target := do
  let target ← Target.ofOperand? contextAddress regs operand
  if target.width? = some .b64 then some target else none

/-! ### Instructions -/

variable {σ : Type}

/-- One instruction. -/
def step (env : Env σ) (i : Instr) (world : σ) (s : State) : Option (σ × State × Next) :=
  match i.opcode, i.operands with
  | .op operation, operands => do
    let s ← operate env.latitude env.contextAddress operation operands s
    return (world, s, .onward)
  | .push, ⟨some operand, none, none, none⟩ => do
    let target ← stackTarget? env.contextAddress s.regs operand
    let value ← target.get? s .b64
    let s ← push env.contextAddress value s
    return (world, s, .onward)
  | .pop, ⟨some (.reg r), none, none, none⟩ => do
    if r.width ≠ .b64 then none
    let (value, s) ← pop env.contextAddress s
    return (world, s.set r.reg value, .onward)
  | .pushfq, ⟨none, none, none, none⟩ => do
    let s ← push env.contextAddress s.flags s
    return (world, s, .onward)
  | .popfq, ⟨none, none, none, none⟩ => do
    let (value, s) ← pop env.contextAddress s
    return (world, { s with flags := value }, .onward)
  | .call, ⟨some (.reg r), none, none, none⟩ => do
    let (world, s) ← env.function (s.get r.reg) world s
    return (world, s, .onward)
  | .jmp, ⟨some (.label l), none, none, none⟩ => some (world, s, .goto l)
  | .jnz, ⟨some (.label l), none, none, none⟩ =>
    some (world, s, if s.status.zero then .onward else .goto l)
  | .ret, ⟨none, none, none, none⟩ => do
    let (_, s) ← pop env.contextAddress s
    return (world, s, .leave)
  | _, _ => none

end Rehost.Machine
