import Rehost.Guest.Instruction
import Rehost.Guest.Memory
import Rehost.Host.Encoding.Cause

/-!
# Errors

Everything that can go wrong between a front end's instructions and the end of a run, as causes with
one wording each.
-/

namespace Rehost

/-- Why a guest operand, or a lock on an instruction, has no host counterpart. -/
inductive OperandCause where
  | size (bits : Nat)
  | notGeneral (register : Guest.Register)
  | stackPointer
  | noHighByte (r : Reg)
  | segment
  | addressSize (bits : Nat)
  | scale
  | notLockable (operation : Operation)
  | lockDestination (operation : Operation)
  deriving DecidableEq, Repr

def OperandCause.message : OperandCause → String
  | size bits => s!"{bits}-bit operands are not supported"
  | notGeneral register =>
    s!"{register.cls.name} register {register.index} is not a general-purpose register"
  | stackPointer => "the stack pointer cannot be used by translated code"
  | noHighByte r => s!"{r.name} has no addressable high byte"
  | segment => "fs/gs segment overrides are not supported"
  | addressSize bits => s!"{bits}-bit addressing is not supported"
  | scale => "scale 16 is not encodable"
  | notLockable operation => s!"lock prefix is not valid on {operation.name}"
  | lockDestination operation => s!"lock {operation.name} needs a memory destination"

inductive Error where
  /-- The front end gave the block up. -/
  | abandoned (address : Word)
  | unsupportedMnemonic (mnemonic : Guest.Mnemonic)
  | unsupportedOperand (cause : OperandCause)
  | unsupportedForm (form : Host.FormError)
  | registersExhausted
  | notGenerated (address : Word)
  | alreadyGenerated (address : Word)
  | memoryFault (fault : Guest.Fault)
  /-- Code of no bytes cannot be installed. -/
  | emptyCode
  /-- Generated code stopped before returning, which compiled code never does. -/
  | halted (address : Word)
  deriving DecidableEq, Repr

def Error.message : Error → String
  | abandoned address =>
    s!"translator failed to produce instructions for unit at {Text.hex address.toNat}"
  | unsupportedMnemonic mnemonic => s!"mnemonic `{mnemonic.name}` has no backend counterpart"
  | unsupportedOperand cause => "unsupported operand: " ++ cause.message
  | unsupportedForm form => form.message
  | registersExhausted => "no host register is left to hold the context pointer"
  | notGenerated address => s!"unit at {Text.hex address.toNat} has no generated code"
  | alreadyGenerated address =>
    s!"unit at {Text.hex address.toNat} is already generated; reset it first"
  | memoryFault fault => "memory fault: " ++ fault.message
  | emptyCode => "executable memory: cannot map an empty function"
  | halted address => s!"code of the unit at {Text.hex address.toNat} did not return"

end Rehost
