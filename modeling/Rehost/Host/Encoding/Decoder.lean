import Rehost.Host.Encoding.Fields

/-!
# Decoding

Reads one instruction off the front of machine code by the rules of the architecture, for the opcodes
that generated code is made of. Each reader returns what it has read together with the bytes that follow, or
nothing if there is no such instruction. Branches are read apart from the others, since where they lead
depends on where they stand.
-/

namespace Rehost.Host

namespace Encoding

/-! ### Before the opcode -/

/-- The bytes before an opcode. -/
structure Header where
  lead : Prefix := .plain
  addressOverride : Bool := false
  operandOverride : Bool := false
  rex : Option Rex := none
  deriving DecidableEq, Repr

namespace Header

/-- The extension bits; without a REX byte they are clear. -/
def extension (header : Header) : Rex := header.rex.getD {}

/-- The operand width of opcodes that are not for bytes. -/
def wide (header : Header) : Width :=
  if header.extension.w then .b64 else if header.operandOverride then .b16 else .b32

/-- The operand width of an opcode whose last bit tells bytes from wider operands. -/
def width (header : Header) (opcode : Byte) : Width :=
  if opcode.getLsbD 0 then header.wide else .b8

/-- The header with a byte that may stand before an opcode, in whatever order, added to it. Of several
lock and repeat bytes the last one counts. -/
def mark? (header : Header) (byte : Byte) : Option Header :=
  if byte = 0xf0 then some { header with lead := .lock }
  else if byte = 0xf3 then some { header with lead := .rep }
  else if byte = 0xf2 then some { header with lead := .repne }
  else if byte = 0x67 then some { header with addressOverride := true }
  else if byte = 0x66 then some { header with operandOverride := true }
  else none

end Header

def Rex.ofByte? (byte : Byte) : Option Rex :=
  if byte.extractLsb' 4 4 = 0b0100 then
    some ⟨byte.getLsbD 3, byte.getLsbD 2, byte.getLsbD 1, byte.getLsbD 0⟩
  else none

/-- Reads what stands before an opcode. A REX byte stands right before it. -/
def readHeader (header : Header) : List Byte → Header × List Byte
  | [] => (header, [])
  | byte :: rest =>
    match header.mark? byte with
    | some header => readHeader header rest
    | none =>
      match Rex.ofByte? byte with
      | some rex => ({ header with rex := some rex }, rest)
      | none => (header, byte :: rest)

/-! ### Operands -/

/-- The register that three bits and an extension bit name. -/
def registerOf (extended : Bool) (code : BitVec 3) : Reg := (BitVec.ofBool extended ++ code).toFin

/-- The register operand that three bits and an extension bit name. Without a REX byte the upper four
byte registers are `ah`, `ch`, `dh` and `bh`. -/
def registerOperand (header : Header) (w : Width) (extended : Bool) (code : BitVec 3) : RegOperand :=
  if w = .b8 ∧ header.rex = none ∧ code.getLsbD 2 then
    { reg := registerOf false (code &&& 0b011), width := .b8, high := true }
  else { reg := registerOf extended code, width := w }

/-- A number of `count` bytes, sign-extended. -/
def readSigned (count n : Nat) (bytes : List Byte) : Option (BitVec n × List Byte) :=
  if count ≤ bytes.length then
    some ((BitVec.ofNat (8 * count) (ofBytes (bytes.take count))).signExtend n, bytes.drop count)
  else none

/-- The registers of an address. -/
structure Addressing where
  base : Option Reg
  index : Option Reg
  scale : Nat
  deriving DecidableEq, Repr

/-- Reads the registers of an address: the one that ModRM names, or those of the SIB byte. Addresses
relative to the instruction are not read. -/
def readAddressing (header : Header) (mode : BitVec 2) (rm : BitVec 3) (bytes : List Byte) :
    Option (Addressing × List Byte) :=
  let rex := header.extension
  if rm = 0b100 then
    match bytes with
    | [] => none
    | byte :: rest =>
      let index := byte.extractLsb' 3 3
      let base := byte.extractLsb' 0 3
      let addressing : Addressing :=
        { base := if base = 0b101 ∧ mode = 0b00 then none else some (registerOf rex.b base)
          index := if index = 0b100 ∧ !rex.x then none else some (registerOf rex.x index)
          scale := if index = 0b100 ∧ !rex.x then 1 else 1 <<< (byte.extractLsb' 6 2).toNat }
      some (addressing, rest)
  else if rm = 0b101 ∧ mode = 0b00 then none
  else some (⟨some (registerOf rex.b rm), none, 1⟩, bytes)

/-- How many bytes the displacement has. -/
def displacementSize (mode : BitVec 2) (base : Option Reg) : Nat :=
  if mode = 0b01 then 1
  else if mode = 0b10 ∨ base.isNone then 4
  else 0

def readMem (header : Header) (mode : BitVec 2) (rm : BitVec 3) (w : Width) (bytes : List Byte) :
    Option (Mem × List Byte) := do
  let (addressing, bytes) ← readAddressing header mode rm bytes
  let (displacement, bytes) ← readSigned (displacementSize mode addressing.base) 32 bytes
  return ({ base := addressing.base, index := addressing.index, scale := addressing.scale
            displacement, width := w, addr32 := header.addressOverride }, bytes)

/-- Reads ModRM with what belongs to it: the bits of its register field, and the other operand. -/
def readRm (header : Header) (w : Width) : List Byte → Option (BitVec 3 × Operand × List Byte)
  | [] => none
  | byte :: rest =>
    let mode := byte.extractLsb' 6 2
    let field := byte.extractLsb' 3 3
    let rm := byte.extractLsb' 0 3
    if mode = 0b11 then
      some (field, .reg (registerOperand header w header.extension.b rm), rest)
    else do
      let (m, rest) ← readMem header mode rm w rest
      return (field, .mem m, rest)

/-! ### Operation by digit -/

def arithmeticOf (digit : BitVec 3) : Operation :=
  match digit.toNat with
  | 0 => .add
  | 1 => .or
  | 2 => .adc
  | 3 => .sbb
  | 4 => .and
  | 5 => .sub
  | 6 => .xor
  | _ => .cmp

def shiftOf? (digit : BitVec 3) : Option Operation :=
  match digit.toNat with
  | 0 => some .rol
  | 1 => some .ror
  | 4 => some .shl
  | 5 => some .shr
  | 7 => some .sar
  | _ => none

/-- Opcodes `fe` and `ff`, the latter of which also has forms that are always 64 bits wide. -/
def countOf? (digit : BitVec 3) : Option Operation :=
  match digit.toNat with
  | 0 => some .inc
  | 1 => some .dec
  | _ => none

/-! ### Shapes of instructions -/

namespace Header

variable (header : Header)

def bare (opcode : Opcode) (bytes : List Byte) : Option (Instr × List Byte) :=
  some ({ lead := header.lead, opcode }, bytes)

def one (opcode : Opcode) (operand : Operand) (bytes : List Byte) : Option (Instr × List Byte) :=
  some ({ lead := header.lead, opcode, operands := { first := operand } }, bytes)

def two (operation : Operation) (dst src : Operand) (bytes : List Byte) :
    Option (Instr × List Byte) :=
  some ({ lead := header.lead, opcode := .op operation
          operands := { first := dst, second := src } }, bytes)

/-- The destination in ModRM, the source in its register field. -/
def rmReg (w : Width) (operation : Operation) (bytes : List Byte) : Option (Instr × List Byte) := do
  let (field, rm, bytes) ← readRm header w bytes
  header.two operation rm (.reg (registerOperand header w header.extension.r field)) bytes

/-- The destination in the register field of ModRM, the source beside it. -/
def regRm (w : Width) (operation : Operation) (bytes : List Byte) : Option (Instr × List Byte) := do
  let (field, rm, bytes) ← readRm header w bytes
  header.two operation (.reg (registerOperand header w header.extension.r field)) rm bytes

/-- The destination in the register field of ModRM, an address beside it. -/
def regAddress (w : Width) (operation : Operation) (bytes : List Byte) : Option (Instr × List Byte) := do
  let (field, rm, bytes) ← readRm header w bytes
  match rm with
  | .mem m =>
    header.two operation (.reg (registerOperand header w header.extension.r field)) (.mem m) bytes
  | _ => none

/-- The destination in ModRM, then an immediate of `count` bytes; the digit gives the operation. -/
def rmImm (w : Width) (count : Nat) (operation : BitVec 3 → Option Operation) (bytes : List Byte) :
    Option (Instr × List Byte) := do
  let (digit, rm, bytes) ← readRm header w bytes
  let operation ← operation digit
  let (value, bytes) ← readSigned count 64 bytes
  header.two operation rm (.imm value w) bytes

/-- An operand in ModRM; the digit gives the opcode. -/
def rmOnly (w : Width) (opcode : BitVec 3 → Option Opcode) (bytes : List Byte) :
    Option (Instr × List Byte) := do
  let (digit, rm, bytes) ← readRm header w bytes
  let opcode ← opcode digit
  header.one opcode rm bytes

/-- A shift by a count that the opcode gives. -/
def shiftBy (w : Width) (count : Operand) (bytes : List Byte) : Option (Instr × List Byte) := do
  let (digit, rm, bytes) ← readRm header w bytes
  let operation ← shiftOf? digit
  header.two operation rm count bytes

/-- A shift by the byte that follows. -/
def shiftByByte (w : Width) (bytes : List Byte) : Option (Instr × List Byte) := do
  let (digit, rm, bytes) ← readRm header w bytes
  let operation ← shiftOf? digit
  match bytes with
  | [] => none
  | count :: bytes => header.two operation rm (.imm (count.setWidth 64) .b8) bytes

/-- A move of an immediate into the register that the opcode names. -/
def moveImmediate (w : Width) (opcode : Byte) (bytes : List Byte) : Option (Instr × List Byte) := do
  let (value, bytes) ← readSigned w.bytes 64 bytes
  let dst := registerOperand header w header.extension.b (opcode.extractLsb' 0 3)
  header.two .mov (.reg dst) (.imm value w) bytes

/-- Stack and call instructions are 64 bits wide unless an override makes them 16, which is not read. -/
def long (instruction : Option (Instr × List Byte)) : Option (Instr × List Byte) :=
  if header.operandOverride then none else instruction

/-- The 64-bit register that the opcode names. -/
def named (opcode : Byte) : Operand :=
  .full (registerOf header.extension.b (opcode.extractLsb' 0 3))

/-- `f6` and `f7`: the digit tells a test with an immediate from negations. -/
def negation (w : Width) (bytes : List Byte) : Option (Instr × List Byte) := do
  let (digit, rm, rest) ← readRm header w bytes
  match digit.toNat with
  | 0 => header.rmImm w (min w.bytes 4) (fun _ => some .test) bytes
  | 2 => header.one (.op .not) rm rest
  | 3 => header.one (.op .neg) rm rest
  | _ => none

/-- `ff`: the digit tells counting from calls and stack instructions. -/
def group (bytes : List Byte) : Option (Instr × List Byte) := do
  let (digit, _, _) ← readRm header .b64 bytes
  match digit.toNat with
  | 2 => header.long (header.rmOnly .b64 (fun _ => some .call) bytes)
  | 6 => header.long (header.rmOnly .b64 (fun _ => some .push) bytes)
  | _ => header.rmOnly header.wide (fun digit => (countOf? digit).map .op) bytes

/-- An arithmetic opcode: three bits name the operation, and the next to last one tells which operand
is the destination. -/
def arithmetic (opcode : Byte) (bytes : List Byte) : Option (Instr × List Byte) :=
  let operation := arithmeticOf (opcode.extractLsb' 3 3)
  if opcode.getLsbD 1 then header.regRm (header.width opcode) operation bytes
  else header.rmReg (header.width opcode) operation bytes

/-- Opcodes that have all eight bits to themselves. With an extension bit `90` is an exchange, which is not
read. -/
def single (opcode : Byte) (bytes : List Byte) : Option (Instr × List Byte) :=
  let w := header.width opcode
  match opcode.toNat with
  | 0x80 | 0x81 => header.rmImm w (min w.bytes 4) (fun digit => some (arithmeticOf digit)) bytes
  | 0x83 => header.rmImm w 1 (fun digit => some (arithmeticOf digit)) bytes
  | 0x84 | 0x85 => header.rmReg w .test bytes
  | 0x86 | 0x87 => header.rmReg w .xchg bytes
  | 0x88 | 0x89 => header.rmReg w .mov bytes
  | 0x8a | 0x8b => header.regRm w .mov bytes
  | 0x8d => header.regAddress w .lea bytes
  | 0x8f => header.long (header.rmOnly .b64 (fun digit => if digit = 0 then some .pop else none) bytes)
  | 0x90 => if header.extension.b then none else header.bare (.op .nop) bytes
  | 0x9c => header.long (header.bare .pushfq bytes)
  | 0x9d => header.long (header.bare .popfq bytes)
  | 0xc0 | 0xc1 => header.shiftByByte w bytes
  | 0xc3 => header.bare .ret bytes
  | 0xc6 | 0xc7 =>
    header.rmImm w (min w.bytes 4) (fun digit => if digit = 0 then some .mov else none) bytes
  | 0xd0 | 0xd1 => header.shiftBy w (.imm 1 .b8) bytes
  | 0xd2 | 0xd3 => header.shiftBy w (.reg ⟨.rcx, .b8, false⟩) bytes
  | 0xf6 | 0xf7 => header.negation w bytes
  | 0xfe => header.rmOnly .b8 (fun digit => (countOf? digit).map .op) bytes
  | 0xff => header.group bytes
  | _ => none

/-- The instruction with an opcode, whose operands follow. -/
def instruction (opcode : Byte) (bytes : List Byte) : Option (Instr × List Byte) :=
  if opcode.extractLsb' 6 2 = 0b00 ∧ !opcode.getLsbD 2 then header.arithmetic opcode bytes
  else if opcode.extractLsb' 3 5 = 0b01010 then header.long (header.one .push (header.named opcode) bytes)
  else if opcode.extractLsb' 3 5 = 0b01011 then header.long (header.one .pop (header.named opcode) bytes)
  else if opcode.extractLsb' 3 5 = 0b10110 then header.moveImmediate .b8 opcode bytes
  else if opcode.extractLsb' 3 5 = 0b10111 then header.moveImmediate header.wide opcode bytes
  else header.single opcode bytes

end Header

/-! ### Branches -/

/-- A branch with a displacement from its own end. -/
structure Branch where
  lead : Prefix
  opcode : Opcode
  displacement : BitVec 32
  deriving DecidableEq, Repr

/-- The branch whose opcode comes first. -/
def readBranchOpcode : List Byte → Option (Opcode × List Byte)
  | [] => none
  | first :: rest =>
    if first = 0xe9 then some (.jmp, rest)
    else if first = 0x0f ∧ rest.head? = some 0x85 then some (.jnz, rest.drop 1)
    else none

end Encoding

open Encoding in
/-- The first instruction of machine code if it is not a branch, and the bytes after it. -/
def decode? (bytes : List Byte) : Option (Instr × List Byte) :=
  match readHeader {} bytes with
  | (_, []) => none
  | (header, opcode :: bytes) => header.instruction opcode bytes

open Encoding in
/-- The first instruction of machine code if it is a branch with a displacement of four bytes, and the bytes after
it. -/
def decodeBranch? (bytes : List Byte) : Option (Branch × List Byte) := do
  let (header, bytes) := readHeader {} bytes
  if header.operandOverride then none
  let (opcode, bytes) ← readBranchOpcode bytes
  let (displacement, bytes) ← readSigned 4 32 bytes
  return (⟨header.lead, opcode, displacement⟩, bytes)

end Rehost.Host
