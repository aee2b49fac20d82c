import Rehost.Error
import Rehost.Host.Convention
import Rehost.Host.Listing

/-!
# Usage of a body

Which flags and registers a body reads, changes and names, over all its instructions at once, and which
host register is to hold the context pointer beside them.
-/

namespace Rehost

/-- What instructions touch. `read` holds every register they name, `modified` those named outright,
and `dirty` those that cannot serve another purpose. -/
structure Footprint where
  flagsIn : Word := 0
  flagsOut : Word := 0
  read : RegSet := .empty
  modified : RegSet := .empty
  dirty : RegSet := .empty
  touchesMemory : Bool := false
  highByte : Bool := false
  deriving DecidableEq, Repr

namespace Footprint

def union (one two : Footprint) : Footprint where
  flagsIn := one.flagsIn ||| two.flagsIn
  flagsOut := one.flagsOut ||| two.flagsOut
  read := one.read.union two.read
  modified := one.modified.union two.modified
  dirty := one.dirty.union two.dirty
  touchesMemory := one.touchesMemory || two.touchesMemory
  highByte := one.highByte || two.highByte

/-- What one operand touches. -/
def ofOperand (effects : Host.Effects) : Host.Operand → Footprint
  | .reg r =>
    let named := RegSet.singleton r.reg
    { read := named, modified := named, dirty := named, highByte := r.high }
  | .mem m =>
    let named := (m.base.elim .empty RegSet.singleton).union (m.index.elim .empty RegSet.singleton)
    { read := named, dirty := named, touchesMemory := effects.accessesMemory }
  | .imm _ _ => {}
  | .label _ => {}

/-- What one instruction touches. -/
def ofInstr (i : Host.Instr) : Footprint :=
  let effects := i.opcode.effects
  (i.operands.operands.map (ofOperand effects)).foldl union
    { flagsIn := effects.flagsRead, flagsOut := effects.flagsWritten }

/-- What a body touches. -/
def ofBody (body : List Host.Instr) : Footprint := (body.map ofInstr).foldl union {}

/-- Whether a register may hold the context pointer. Beside memory accesses it must survive the code
around a call, which uses `rax`; and beside a high byte as well it must do without a REX byte. -/
def candidate (footprint : Footprint) (r : Reg) : Bool :=
  !footprint.dirty.contains r && !Host.Convention.reserved.contains r &&
    !(footprint.touchesMemory && r = Reg.rax) &&
    !(footprint.touchesMemory && footprint.highByte && r.extended)

/-- The register for the context pointer: the first candidate, or the first that called functions
preserve if the body accesses memory and there is one. -/
def base? (footprint : Footprint) : Option Reg :=
  let candidates := Reg.all.filter footprint.candidate
  let preserved :=
    if footprint.touchesMemory then candidates.find? Host.Convention.calleeSaved.contains else none
  preserved <|> candidates.head?

end Footprint

/-- A footprint with the register chosen for the context pointer. -/
structure Usage extends Footprint where
  base : Reg
  deriving DecidableEq, Repr

namespace Usage

/-- Registers that entry code saves and exit code restores. -/
def saved (usage : Usage) : RegSet :=
  (usage.dirty.insert usage.base).inter Host.Convention.calleeSaved

/-- The usage of a body, if a register is left for the context pointer. -/
def ofBody (body : List Host.Instr) : Except Error Usage :=
  let footprint := Footprint.ofBody body
  match footprint.base? with
  | some base => .ok { footprint with base }
  | none => .error .registersExhausted

end Usage

end Rehost
