import Rehost.Host.Encoding.Fields

/-!
# Encoding of instructions

Which opcode and fields each instruction has. An instruction becomes a `Piece` of code: its bytes, and
for a branch the label whose displacement follows them.
-/

namespace Rehost.Host.Encoding

/-- The opcode for bytes, or its successor for wider operands. -/
def sized (opcode : Byte) (width : Width) : Byte := if width = .b8 then opcode else opcode + 1

def checkWidths (dst src : Width) : Except Cause Unit :=
  if dst = src then .ok () else .error (.widths dst src)

/-- The eight two-operand operations that share their opcodes up to this digit. -/
def arithmeticDigit : Operation → Option (BitVec 3)
  | .add => some 0
  | .or => some 1
  | .adc => some 2
  | .sbb => some 3
  | .and => some 4
  | .sub => some 5
  | .xor => some 6
  | .cmp => some 7
  | _ => none

def shiftDigit : Operation → Option (BitVec 3)
  | .rol => some 0
  | .ror => some 1
  | .shl => some 4
  | .shr => some 5
  | .sar => some 7
  | _ => none

/-! ### Operand combinations -/

def arithmetic (digit : BitVec 3) (dst src : Operand) : Except Cause Fields :=
  let opcode : Byte := 0b00#2 ++ digit ++ 0b000#3
  match Rm.ofOperand? dst, src with
  | some rm, .reg src => do
    checkWidths rm.width src.width
    withRm src.width (sized opcode src.width) (.reg src) rm []
  | some (.reg dst), .mem m => do
    checkWidths dst.width m.width
    withRm dst.width (sized (opcode + 2) dst.width) (.reg dst) (.mem m) []
  | some rm, .imm value _ => do
    checkImmediate value rm.width
    if rm.width = .b8 then withRm rm.width 0x80 (.digit digit) rm (toBytes value 1)
    else if isSigned 8 value then withRm rm.width 0x83 (.digit digit) rm (toBytes value 1)
    else withRm rm.width 0x81 (.digit digit) rm (immediateBytes value rm.width)
  | _, _ => .error .combination

def test (dst src : Operand) : Except Cause Fields :=
  match Rm.ofOperand? dst, src with
  | some rm, .reg src => do
    checkWidths rm.width src.width
    withRm src.width (sized 0x84 src.width) (.reg src) rm []
  | some (.reg dst), .mem m => do
    checkWidths dst.width m.width
    withRm dst.width (sized 0x84 dst.width) (.reg dst) (.mem m) []
  | some rm, .imm value _ => do
    checkImmediate value rm.width
    withRm rm.width (sized 0xf6 rm.width) (.digit 0) rm (immediateBytes value rm.width)
  | _, _ => .error .combination

/-- A 64-bit register takes a full 64-bit immediate if it is not a signed 32-bit one. -/
def move (dst src : Operand) : Except Cause Fields :=
  match Rm.ofOperand? dst, src with
  | some rm, .reg src => do
    checkWidths rm.width src.width
    withRm src.width (sized 0x88 src.width) (.reg src) rm []
  | some (.reg dst), .mem m => do
    checkWidths dst.width m.width
    withRm dst.width (sized 0x8a dst.width) (.reg dst) (.mem m) []
  | some (.reg dst), .imm value _ =>
    if dst.width = .b64 ∧ !isSigned 32 value then withReg 0b10111 dst (toBytes value 8)
    else do
      checkImmediate value dst.width
      let immediate := immediateBytes value dst.width
      match dst.width with
      | .b64 => withRm dst.width 0xc7 (.digit 0) (.reg dst) immediate
      | .b8 => withReg 0b10110 dst immediate
      | _ => withReg 0b10111 dst immediate
  | some (.mem m), .imm value _ => do
    checkImmediate value m.width
    withRm m.width (sized 0xc6 m.width) (.digit 0) (.mem m) (immediateBytes value m.width)
  | _, _ => .error .combination

def loadAddress (dst src : Operand) : Except Cause Fields :=
  match dst, src with
  | .reg dst, .mem m =>
    if dst.width = .b8 then .error .addressOperands
    else withRm dst.width 0x8d (.reg dst) (.mem m) []
  | _, _ => .error .addressOperands

def unary (opcode : Byte) (digit : BitVec 3) (operand : Operand) : Except Cause Fields :=
  match Rm.ofOperand? operand with
  | some rm => withRm rm.width (sized opcode rm.width) (.digit digit) rm []
  | none => .error .unaryOperand

/-- A count of one has an opcode of its own; other counts are a byte, or come from `cl`. -/
def shift (digit : BitVec 3) (dst count : Operand) : Except Cause Fields :=
  match Rm.ofOperand? dst with
  | none => .error .shiftDestination
  | some rm =>
    match count with
    | .imm value _ =>
      if value = 1 then withRm rm.width (sized 0xd0 rm.width) (.digit digit) rm []
      else if value.toNat < 256 then
        withRm rm.width (sized 0xc0 rm.width) (.digit digit) rm (toBytes value 1)
      else .error (.shiftCount value)
    | .reg r =>
      if r = ⟨.rcx, .b8, false⟩ then withRm rm.width (sized 0xd2 rm.width) (.digit digit) rm []
      else .error .shiftCountOperand
    | _ => .error .shiftCountOperand

def exchange (dst src : Operand) : Except Cause Fields :=
  match Rm.ofOperand? dst, src with
  | some rm, .reg src => do
    checkWidths rm.width src.width
    withRm src.width (sized 0x86 src.width) (.reg src) rm []
  | some (.reg dst), .mem m => do
    checkWidths dst.width m.width
    withRm dst.width (sized 0x86 dst.width) (.reg dst) (.mem m) []
  | _, _ => .error .exchangeOperands

/-- `push` and `pop`: a register in the opcode, or a memory operand with a digit. -/
def stack (inOpcode : BitVec 5) (opcode : Byte) (digit : BitVec 3) : Operand → Except Cause Fields
  | .reg r =>
    if r.width = .b64 then
      .ok { rex := if r.reg.extended then some { b := true } else none
            opcode := [inOpcode ++ r.reg.low] }
    else .error .stackOperand
  | .mem m =>
    if m.width = .b64 then withRm none opcode (.digit digit) (.mem m) [] else .error .stackOperand
  | _ => .error .stackOperand

def call : Operand → Except Cause Fields
  | .reg r => if r.width = .b64 then withRm none 0xff (.digit 2) (.reg r) [] else .error .callTarget
  | _ => .error .callTarget

/-! ### Pieces -/

/-- The code of one instruction: its bytes, and the label of a branch, whose four-byte displacement
follows them. -/
structure Piece where
  bytes : List Byte
  target : Option Label := none
  deriving DecidableEq, Repr

def Piece.size (piece : Piece) : Nat :=
  piece.bytes.length + if piece.target.isSome then 4 else 0

def leadByte : Prefix → Option Byte
  | .plain => none
  | .lock => some 0xf0
  | .rep => some 0xf3
  | .repne => some 0xf2

/-- The opcode of a branch, without its displacement. -/
def branchOpcode : Opcode → Option (List Byte)
  | .jmp => some [0xe9]
  | .jnz => some [0x0f, 0x85]
  | _ => none

/-- How many operands an opcode takes. -/
def arity : Opcode → Nat
  | .op operation =>
    match operation with
    | .nop => 0
    | .not | .neg | .inc | .dec => 1
    | _ => 2
  | .push | .pop | .call | .jmp | .jnz => 1
  | .pushfq | .popfq | .ret => 0

/-- The fields of an instruction without operands. -/
def noOperand : Opcode → List Byte
  | .op .nop => [0x90]
  | .pushfq => [0x9c]
  | .popfq => [0x9d]
  | .ret => [0xc3]
  | _ => []

/-- The fields of an instruction with one operand, branches apart. -/
def oneOperand (opcode : Opcode) (operand : Operand) : Except Cause Fields :=
  match opcode with
  | .op .not => unary 0xf6 2 operand
  | .op .neg => unary 0xf6 3 operand
  | .op .inc => unary 0xfe 0 operand
  | .op .dec => unary 0xfe 1 operand
  | .push => stack 0b01010 0xff 6 operand
  | .pop => stack 0b01011 0x8f 0 operand
  | .call => call operand
  | _ => .error (.arity (arity opcode))

/-- The fields of an instruction with two operands. -/
def twoOperands (opcode : Opcode) (dst src : Operand) : Except Cause Fields :=
  match opcode with
  | .op operation =>
    match arithmeticDigit operation, shiftDigit operation with
    | some digit, _ => arithmetic digit dst src
    | none, some digit => shift digit dst src
    | none, none =>
      match operation with
      | .test => test dst src
      | .mov => move dst src
      | .lea => loadAddress dst src
      | .xchg => exchange dst src
      | _ => .error (.arity (arity opcode))
  | _ => .error (.arity (arity opcode))

/-- The code of an instruction. -/
def piece (i : Instr) : Except Cause Piece := do
  if !i.operands.filled (arity i.opcode) then throw (.arity (arity i.opcode))
  match branchOpcode i.opcode, i.operands.first, i.operands.second with
  | some opcode, some (.label l), _ =>
    return { bytes := (leadByte i.lead).toList ++ opcode, target := some l }
  | some _, _, _ => throw .branchTarget
  | none, none, _ => return { bytes := (leadByte i.lead).toList ++ noOperand i.opcode }
  | none, some operand, none =>
    let fields ← oneOperand i.opcode operand
    return { bytes := { fields with lead := leadByte i.lead }.bytes }
  | none, some dst, some src =>
    let fields ← twoOperands i.opcode dst src
    return { bytes := { fields with lead := leadByte i.lead }.bytes }

end Rehost.Host.Encoding
