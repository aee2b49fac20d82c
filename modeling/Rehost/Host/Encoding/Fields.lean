import Rehost.Host.Encoding.Cause

/-!
# Fields of an encoded instruction

An encoded instruction is a lock or repeat byte, the overrides of address and operand size, a REX byte,
the opcode, an operand field (ModRM, SIB and displacement) and an immediate, each of which may be
absent. `withRm` fills the fields of an instruction that names a register or memory operand in its
ModRM byte; `withReg` those of one that names a register in the opcode itself.
-/

namespace Rehost.Host.Encoding

/-- The extension byte: 64-bit operands, and the fourth bit of three register numbers. -/
structure Rex where
  w : Bool := false
  r : Bool := false
  x : Bool := false
  b : Bool := false
  deriving DecidableEq, Repr

def Rex.byte (rex : Rex) : Byte :=
  0b0100#4 ++ BitVec.ofBool rex.w ++ BitVec.ofBool rex.r ++ BitVec.ofBool rex.x ++ BitVec.ofBool rex.b

/-- The fields of one instruction in the order in which they are written. -/
structure Fields where
  lead : Option Byte := none
  addressOverride : Bool := false
  operandOverride : Bool := false
  rex : Option Rex := none
  opcode : List Byte
  operand : List Byte := []
  immediate : List Byte := []
  deriving DecidableEq, Repr

def Fields.bytes (fields : Fields) : List Byte :=
  fields.lead.toList ++ (if fields.addressOverride then [0x67] else []) ++
    (if fields.operandOverride then [0x66] else []) ++ (fields.rex.map Rex.byte).toList ++
    fields.opcode ++ fields.operand ++ fields.immediate

/-! ### Register numbers -/

/-- The three bits that name a register; those of `ah` to `bh` follow those of `al` to `bl`. -/
def registerCode (r : RegOperand) : Except Cause (BitVec 3) :=
  if r.high then
    if r.width = .b8 ∧ r.reg.val < 4 then .ok (BitVec.ofNat 3 (r.reg.val + 4))
    else .error (.noHighByte r.reg)
  else .ok r.reg.low

/-- Whether a register can only be named beside a REX byte: the low bytes of `rsp` to `rdi`. -/
def needsRex (r : RegOperand) : Bool :=
  r.width = .b8 && !r.high && 4 ≤ r.reg.val && r.reg.val < 8

/-- The REX byte to write, if any, for an instruction that names these registers as bytes. -/
def rexFor (rex : Rex) (byteRegisters : List RegOperand) : Except Cause (Option Rex) :=
  if rex = {} ∧ !byteRegisters.any needsRex then .ok none
  else if byteRegisters.any (·.high) then .error .highByteWithRex
  else .ok (some rex)

/-! ### Immediates -/

/-- Whether a value is the sign extension of its low `k` bits. -/
def isSigned (k : Nat) {n : Nat} (value : BitVec n) : Bool := (value.setWidth k).signExtend n == value

/-- Whether an immediate can be given to an operand of a width: as a signed or unsigned value of up to
32 bits, and as a signed 32-bit value if the operand has 64. -/
def immediateFits (value : Word) : Width → Bool
  | .b8 => -0x80 ≤ value.toInt && value.toInt ≤ 0xff
  | .b16 => -0x8000 ≤ value.toInt && value.toInt ≤ 0xffff
  | .b32 => -0x80000000 ≤ value.toInt && value.toInt ≤ 0xffffffff
  | .b64 => isSigned 32 value

def checkImmediate (value : Word) (width : Width) : Except Cause Unit :=
  if immediateFits value width then .ok () else .error (.immediate value width)

/-- An immediate of an operand: at most four bytes. -/
def immediateBytes (value : Word) (width : Width) : List Byte := toBytes value (min width.bytes 4)

/-! ### ModRM, SIB and displacement -/

def modrm (mode : BitVec 2) (reg rm : BitVec 3) : Byte := mode ++ reg ++ rm

def sib (scale : BitVec 2) (index base : BitVec 3) : Byte := scale ++ index ++ base

/-- The factor on an index as two bits; without an index it does not matter. -/
def scaleCode (m : Mem) : Except Cause (BitVec 2) :=
  match m.index, m.scale with
  | none, _ => .ok 0
  | some _, 1 => .ok 0
  | some _, 2 => .ok 1
  | some _, 4 => .ok 2
  | some _, 8 => .ok 3
  | some _, factor => .error (.scale factor)

/-- How long a displacement is written: not at all, in one byte, or in four. Mode 0 with the code of
`rbp` means something else, so a zero displacement is written there too. -/
def mode (displacement : BitVec 32) (base : Reg) : BitVec 2 :=
  if displacement = 0 ∧ base.low ≠ 0b101 then 0b00
  else if isSigned 8 displacement then 0b01
  else 0b10

def displacementBytes (mode : BitVec 2) (displacement : BitVec 32) : List Byte :=
  if mode = 0b01 then toBytes displacement 1
  else if mode = 0b10 then toBytes displacement 4
  else []

/-- The operand field for a memory operand beside the register field `reg`. -/
def memField (reg : BitVec 3) (m : Mem) : Except Cause (List Byte) := do
  let scale ← scaleCode m
  if m.index = some Reg.rsp then throw .stackIndex
  let index := (m.index.map Reg.low).getD 0b100
  match m.base with
  | none => return modrm 0b00 reg 0b100 :: sib scale index 0b101 :: toBytes m.displacement 4
  | some base =>
    let mode := mode m.displacement base
    let addressing :=
      if m.index.isSome ∨ base.low = 0b100 then [modrm mode reg 0b100, sib scale index base.low]
      else [modrm mode reg base.low]
    return addressing ++ displacementBytes mode m.displacement

/-- What stands in the register field of ModRM: a register, or a digit that extends the opcode. -/
inductive RegField where
  | digit (code : BitVec 3)
  | reg (r : RegOperand)

namespace RegField

def code : RegField → Except Cause (BitVec 3)
  | digit code => .ok code
  | reg r => registerCode r

def extended : RegField → Bool
  | digit _ => false
  | reg r => r.reg.extended

def byteRegisters : RegField → List RegOperand
  | digit _ => []
  | reg r => if r.width = .b8 then [r] else []

end RegField

/-- What ModRM names beside its register field. -/
inductive Rm where
  | reg (r : RegOperand)
  | mem (m : Mem)

namespace Rm

def ofOperand? : Operand → Option Rm
  | .reg r => some (reg r)
  | .mem m => some (mem m)
  | _ => none

def width : Rm → Width
  | reg r => r.width
  | mem m => m.width

def addr32 : Rm → Bool
  | reg _ => false
  | mem m => m.addr32

def byteRegisters : Rm → List RegOperand
  | reg r => if r.width = .b8 then [r] else []
  | mem _ => []

/-- The extension bits of the base (or register) and of the index. -/
def baseExtended : Rm → Bool
  | reg r => r.reg.extended
  | mem m => m.base.any Reg.extended

def indexExtended : Rm → Bool
  | reg _ => false
  | mem m => m.index.any Reg.extended

def field (code : BitVec 3) : Rm → Except Cause (List Byte)
  | reg r => do return [modrm 0b11 code (← registerCode r)]
  | mem m => memField code m

end Rm

/-! ### Instruction shapes -/

/-- An instruction with a ModRM byte. Without a width it keeps the default operand size. -/
def withRm (width : Option Width) (opcode : Byte) (reg : RegField) (rm : Rm)
    (immediate : List Byte) : Except Cause Fields := do
  let code ← reg.code
  let rex : Rex :=
    { w := width = some .b64, r := reg.extended, x := rm.indexExtended, b := rm.baseExtended }
  let rex ← rexFor rex (reg.byteRegisters ++ rm.byteRegisters)
  let operand ← rm.field code
  return { addressOverride := rm.addr32, operandOverride := width = some .b16, rex
           opcode := [opcode], operand, immediate }

/-- An instruction with a register in the low three bits of its opcode. -/
def withReg (opcode : BitVec 5) (r : RegOperand) (immediate : List Byte) : Except Cause Fields := do
  let code ← registerCode r
  let rex ← rexFor { w := r.width = .b64, b := r.reg.extended } [r]
  return { operandOverride := r.width = .b16, rex, opcode := [opcode ++ code], immediate }

end Rehost.Host.Encoding
