import Rehost.Operation
import Rehost.Prefix
import Rehost.Reg
import Rehost.Slots

/-!
# Host instructions

The x86-64 instructions that generated code is made of: the operations shared with the guest, and the
stack, call and branch instructions around them. `Opcode.effects` states what the rest of the library
assumes of each without executing it: flags read and written, and how the first two operands are used.
-/

namespace Rehost.Host

inductive Opcode where
  | op (operation : Operation)
  | push | pop | pushfq | popfq | call | jmp | jnz | ret
  deriving DecidableEq, Repr

namespace Opcode

def all : List Opcode :=
  Operation.all.map op ++ [push, pop, pushfq, popfq, call, jmp, jnz, ret]

def name : Opcode → String
  | op operation => operation.name
  | push => "push"
  | pop => "pop"
  | pushfq => "pushfq"
  | popfq => "popfq"
  | call => "call"
  | jmp => "jmp"
  | jnz => "jnz"
  | ret => "ret"

def ofName? (name : String) : Option Opcode := all.find? (·.name = name)

end Opcode

/-! ### Operands -/

/-- A register, or bits 8 to 15 of one if `high`. -/
structure RegOperand where
  reg : Reg
  width : Width
  high : Bool := false
  deriving DecidableEq, Repr

/-- `[base + index * scale + displacement]`, computed in 32 bits if `addr32`. -/
structure Mem where
  base : Option Reg := none
  index : Option Reg := none
  scale : Nat := 1
  displacement : BitVec 32 := 0
  width : Width
  addr32 : Bool := false
  deriving DecidableEq, Repr

/-- A position in a listing, by number. -/
abbrev Label := Nat

inductive Operand where
  | reg (r : RegOperand)
  | imm (value : Word) (width : Width)
  | mem (m : Mem)
  | label (l : Label)
  deriving DecidableEq, Repr

namespace Operand

def isMem : Operand → Bool
  | mem _ => true
  | _ => false

/-- The whole of a register. -/
def full (r : Reg) : Operand := .reg ⟨r, .b64, false⟩

/-- The low half of a register. -/
def half (r : Reg) : Operand := .reg ⟨r, .b32, false⟩

/-- Memory at a displacement from a register. -/
def based (base : Reg) (displacement : Nat) (width : Width) : Operand :=
  .mem { base := some base, displacement := BitVec.ofNat 32 displacement, width }

def mem? : Operand → Option Mem
  | mem m => some m
  | _ => none

end Operand

/-! ### Instructions -/

structure Instr where
  lead : Prefix := .plain
  opcode : Opcode
  operands : Slots Operand := {}
  deriving DecidableEq, Repr

namespace Instr

def bare (opcode : Opcode) : Instr := { opcode }

def one (opcode : Opcode) (operand : Operand) : Instr := { opcode, operands := { first := operand } }

def two (opcode : Opcode) (dst src : Operand) : Instr :=
  { opcode, operands := { first := dst, second := src } }

/-- The memory operands with their positions. -/
def memories (i : Instr) : List (Nat × Mem) :=
  i.operands.toList.zipIdx.filterMap fun (operand, position) =>
    (operand.bind Operand.mem?).map fun m => (position, m)

/-- The first memory operand with its position. -/
def memory? (i : Instr) : Option (Nat × Mem) := i.memories.head?

end Instr

/-! ### Effects -/

/-- What is assumed of an instruction: the flags it may read and write, whether it reads and writes
its destination, whether it writes its source, and whether a memory operand is accessed at all. -/
structure Effects where
  flagsRead : Word := 0
  flagsWritten : Word := 0
  readsDst : Bool := false
  writesDst : Bool := false
  writesSrc : Bool := false
  accessesMemory : Bool := true
  deriving DecidableEq, Repr

/-- A shift may have a count of zero and then keeps every flag, so shifts also read the flags they
write. -/
def operationEffects : Operation → Effects
  | .add | .sub | .and | .or | .xor | .neg =>
    { flagsWritten := Flag.status, readsDst := true, writesDst := true }
  | .adc | .sbb =>
    { flagsRead := Flag.carry, flagsWritten := Flag.status, readsDst := true, writesDst := true }
  | .cmp | .test => { flagsWritten := Flag.status, readsDst := true }
  | .mov => { writesDst := true }
  | .lea => { writesDst := true, accessesMemory := false }
  | .not => { readsDst := true, writesDst := true }
  | .inc | .dec =>
    { flagsWritten := Flag.status &&& ~~~Flag.carry, readsDst := true, writesDst := true }
  | .shl | .shr | .sar =>
    { flagsRead := Flag.status, flagsWritten := Flag.status, readsDst := true, writesDst := true }
  | .rol | .ror =>
    { flagsRead := Flag.carry ||| Flag.overflow, flagsWritten := Flag.carry ||| Flag.overflow
      readsDst := true, writesDst := true }
  | .xchg => { readsDst := true, writesDst := true, writesSrc := true }
  | .nop => {}

def Opcode.effects : Opcode → Effects
  | op operation => operationEffects operation
  | push => { readsDst := true }
  | pop => { writesDst := true }
  | pushfq => { flagsRead := Flag.status }
  | popfq => { flagsWritten := Flag.status }
  | call => { flagsWritten := Flag.status, readsDst := true }
  | jmp => {}
  | jnz => { flagsRead := Flag.zero }
  | ret => {}

end Rehost.Host
