import Rehost.Reg

/-!
# Calling convention

How generated code is called and how it calls: two arguments in registers, a result in `rax`, and a set
of registers that a function hands back as it found them.
-/

namespace Rehost.Host.Convention

/-- `rbx`, `rbp` and `r12` to `r15`. -/
def calleeSaved : RegSet := ⟨0xf028⟩

/-- Registers that never hold the context pointer: `rsp` and `rbp`. -/
def reserved : RegSet := ⟨0x30⟩

def firstArgument : Reg := .rdi

def secondArgument : Reg := .rsi

/-- Stack bytes that a caller sets aside for the function it calls. -/
def shadowSpace : Nat := 0

/-- Bytes of an address. -/
def pointerBytes : Nat := 8

end Rehost.Host.Convention
