import Rehost.Host.Instr
import Rehost.Text.Hex

/-!
# Why an instruction cannot be encoded
-/

namespace Rehost.Host

namespace Encoding

/-- Why an instruction has no encoding. -/
inductive Cause where
  /-- The opcode takes a fixed number of operands. -/
  | arity (count : Nat)
  | combination
  | widths (dst src : Width)
  | immediate (value : Word) (width : Width)
  | addressOperands
  | unaryOperand
  | shiftDestination
  | shiftCount (value : Word)
  | shiftCountOperand
  | exchangeOperands
  | stackOperand
  | callTarget
  | branchTarget
  | noHighByte (r : Reg)
  /-- `ah`, `ch`, `dh` and `bh` cannot be named beside a REX byte. -/
  | highByteWithRex
  | scale (factor : Nat)
  | stackIndex
  | unboundLabel
  | displacement
  | memoryOperands
  deriving DecidableEq, Repr

def Cause.message : Cause → String
  | arity count => s!"expects exactly {count} operand(s)"
  | combination => "unsupported operand combination"
  | widths dst src => s!"operand width mismatch ({dst.name} vs {src.name})"
  | immediate value width => s!"immediate {Text.hex value.toNat} does not fit {width.name}"
  | addressOperands => "expects a 16/32/64-bit register and a memory operand"
  | unaryOperand => "expects a register or memory operand"
  | shiftDestination => "expects a register or memory destination"
  | shiftCount value => s!"shift count {value.toInt} out of range"
  | shiftCountOperand => "count must be an immediate or cl"
  | exchangeOperands => "expects a register operand"
  | stackOperand => "expects a 64-bit register or qword memory operand"
  | callTarget => "expects a 64-bit register"
  | branchTarget => "expects a label"
  | noHighByte r => s!"{r.name} has no high byte"
  | highByteWithRex => "high byte register cannot be encoded with a REX prefix"
  | scale factor => s!"scale {factor} is not encodable"
  | stackIndex => "rsp cannot be an index register"
  | unboundLabel => "branch to an unbound label"
  | displacement => "branch displacement overflow"
  | memoryOperands => "more than one memory operand"

end Encoding

/-- An instruction that cannot be encoded, and why. -/
structure FormError where
  opcode : Opcode
  cause : Encoding.Cause
  deriving DecidableEq, Repr

def FormError.message (error : FormError) : String :=
  s!"cannot encode `{error.opcode.name}`: {error.cause.message}"

end Rehost.Host
