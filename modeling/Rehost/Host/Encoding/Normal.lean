import Rehost.Host.Instr

/-!
# Normal instructions

An encoding forgets what makes no difference when the instruction is executed: which width an immediate
was declared with, the bits of it that the operand has no room for, the scale of an absent index, the
width of memory that is only addressed, and the order of a register and a memory operand where the
instruction treats them alike. `Instr.normal` forgets the same.
-/

namespace Rehost.Host

namespace Mem

/-- Without an index the scale is one. -/
def normal (m : Mem) : Mem := if m.index.isNone then { m with scale := 1 } else m

end Mem

namespace Operand

/-- The width of a register or of memory. -/
def width? : Operand → Option Width
  | reg r => some r.width
  | mem m => some m.width
  | _ => none

/-- An immediate as the processor extends it from the width of the operand it is used with. -/
def extended (value : Word) (w : Width) : Operand := .imm ((value.setWidth w.bits).signExtend 64) w

def normal : Operand → Operand
  | mem m => mem m.normal
  | other => other

end Operand

/-- Two operands of an operation in normal form. A count is a byte; any other immediate takes the width
of the destination. -/
def normalPair (operation : Operation) (dst src : Operand) : Operand × Operand :=
  match operation.action, dst, src with
  | .address, .reg dst, .mem m => (.reg dst, .mem { m.normal with width := dst.width })
  | .swap, .reg dst, .mem m => (.mem m.normal, .reg dst)
  | .shift _, dst, .imm value _ => (dst.normal, .imm value .b8)
  | _, dst, .imm value declared => (dst.normal, .extended value (dst.width?.getD declared))
  | _, .reg dst, .mem m =>
    if operation = .test then (.mem m.normal, .reg dst) else (.reg dst, .mem m.normal)
  | _, dst, src => (dst.normal, src.normal)

/-- The instruction that stands for all those with its encoding. -/
def Instr.normal (i : Instr) : Instr :=
  match i.opcode, i.operands with
  | .op operation, ⟨some dst, some src, third, fourth⟩ =>
    let (dst, src) := normalPair operation dst src
    { i with operands := ⟨some dst, some src, third, fourth⟩ }
  | _, ⟨first, second, third, fourth⟩ => { i with operands := ⟨first.map .normal, second, third, fourth⟩ }

end Rehost.Host
