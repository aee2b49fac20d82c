import Rehost.Error

/-!
# Selection

Turns a guest instruction into the host instruction that does the same to registers and memory of the
host. Guest registers keep their numbers. The stack pointer cannot be used, because host code needs its
own. The first obstacle is reported: the mnemonic, then the operands in order, then the lock prefix.
-/

namespace Rehost

namespace Selection

/-- The operation of a mnemonic that has a host counterpart. -/
def operation (mnemonic : Guest.Mnemonic) : Except Error Operation :=
  match mnemonic with
  | .op operation => .ok operation
  | _ => .error (.unsupportedMnemonic mnemonic)

def width (size : Guest.Size) : Except OperandCause Width :=
  match size.width? with
  | some w => .ok w
  | none => .error (.size size.bits)

/-- The host register that stands for a guest register. -/
def register : Guest.Register → Except OperandCause Reg
  | .general r => if r = Reg.rsp then .error .stackPointer else .ok r
  | other => .error (.notGeneral other)

def optionalRegister : Option Guest.Register → Except OperandCause (Option Reg)
  | none => .ok none
  | some r => do return some (← register r)

/-- Whether an address is computed in 32 bits. -/
def addr32 (size : Guest.Size) : Except OperandCause Bool :=
  match size.resolve with
  | .s64 => .ok false
  | .s32 => .ok true
  | other => .error (.addressSize other.bits)

def memory (mem : Guest.Mem) (size : Guest.Size) : Except OperandCause Host.Mem := do
  if mem.segment = some .fs ∨ mem.segment = some .gs then throw .segment
  let addr32 ← addr32 mem.addressSize
  if mem.scale = .x16 then throw .scale
  let base ← optionalRegister mem.base
  let index ← optionalRegister mem.index
  let width ← width size
  return { base, index, scale := mem.scale.factor, displacement := mem.displacement, width, addr32 }

def operand : Guest.Operand → Except OperandCause Host.Operand
  | .reg r size high => do
    let width ← width size
    let reg ← register r
    if high ∧ ¬(width = .b8 ∧ reg.val < 4) then throw (.noHighByte reg)
    return .reg { reg, width, high }
  | .imm value size => do return .imm value (← width size)
  | .mem mem size => do return .mem (← memory mem size)

/-- Operations that read, change and write back their destination as one step under a lock. -/
def lockable : Operation → Bool
  | .add | .or | .adc | .sbb | .and | .sub | .xor | .not | .neg | .inc | .dec | .xchg => true
  | _ => false

def checkLock (operation : Operation) (operands : Slots Host.Operand) : Except OperandCause Unit :=
  if lockable operation then
    match operands.first with
    | some (.mem _) => .ok ()
    | _ => .error (.lockDestination operation)
  else .error (.notLockable operation)

/-- The operands of a host instruction, and the lock on it, if there is one. -/
def operands (lead : Prefix) (operation : Operation) (slots : Slots Guest.Operand) :
    Except OperandCause (Slots Host.Operand) := do
  let operands ← slots.mapM operand
  if lead = .lock then checkLock operation operands
  return operands

end Selection

/-- The host instruction for a guest instruction. -/
def select (i : Guest.Instruction) : Except Error Host.Instr := do
  let operation ← Selection.operation i.mnemonic
  match Selection.operands i.lead operation i.operands with
  | .ok operands => return { lead := i.lead, opcode := .op operation, operands }
  | .error cause => throw (.unsupportedOperand cause)

end Rehost
