import Rehost.Proofs.Forgetting
import Rehost.Proofs.Reading

/-!
# Opcodes

Machine code is read as the instruction it was written for once its opcode leads the reader to the operands:
with a ModRM byte (`faithful_of_withRm`), or with a register in the opcode itself (`faithful_of_withReg`). Most
opcodes come in a `Family` of two, one for bytes and one for wider operands, and the families differ only in
where the operands stand (`faithful_rmReg`, `faithful_regRm`, `faithful_rmImm`).
-/

namespace Rehost.Host.Encoding

/-! ### Whole instructions -/

/-- Bytes that are read as one instruction, whatever follows them. -/
structure Faithful (bytes : List Byte) (i : Instr) : Prop where
  decodes : ∀ rest, decode? (bytes ++ rest) = some (i, rest)
  nonempty : 1 ≤ bytes.length
  short : bytes.length ≤ 15

theorem length_bytes (fields : Fields) {opcode : Byte} (only : fields.opcode = [opcode])
    (small : fields.operand.length + fields.immediate.length ≤ 10) :
    1 ≤ fields.bytes.length ∧ fields.bytes.length ≤ 15 := by
  have optional {α : Type} (value : Option α) : value.toList.length ≤ 1 := by cases value <;> simp
  have lead := optional fields.lead
  have rex := optional (fields.rex.map Rex.byte)
  have address : (if fields.addressOverride then [(0x67 : Byte)] else []).length ≤ 1 := by split <;> simp
  have operand : (if fields.operandOverride then [(0x66 : Byte)] else []).length ≤ 1 := by split <;> simp
  simp only [Fields.bytes, only, List.length_append, List.length_singleton]
  omega

/-- The header that stands before the opcode of an instruction with these fields. -/
def Fields.header (fields : Fields) (lead : Prefix) : Header :=
  ⟨lead, fields.addressOverride, fields.operandOverride, fields.rex⟩

/-- The bytes of an instruction with these fields, after a lock or repeat byte. -/
def Fields.after (fields : Fields) (lead : Prefix) : List Byte := { fields with lead := leadByte lead }.bytes

theorem faithful_of_fields {fields : Fields} {opcode : Byte} {lead : Prefix} {i : Instr}
    (only : fields.opcode = [opcode]) (opens : IsOpcode opcode)
    (small : fields.operand.length + fields.immediate.length ≤ 10)
    (read : ∀ rest, (fields.header lead).instruction opcode (fields.operand ++ (fields.immediate ++ rest)) =
      some (i, rest)) :
    Faithful (fields.after lead) i := by
  obtain ⟨nonempty, short⟩ := length_bytes { fields with lead := leadByte lead } only small
  refine ⟨fun rest => ?_, nonempty, short⟩
  simp only [decode?, Fields.after, readHeader_bytes only opens lead rest]
  exact read rest

theorem faithful_of_withRm {width : Option Width} {opcode : Byte} {reg : RegField} {rm : Rm} {immediate : List Byte}
    {fields : Fields} {lead : Prefix} {i : Instr} (written : withRm width opcode reg rm immediate = .ok fields)
    (opens : IsOpcode opcode) (small : immediate.length ≤ 4)
    (read : ∀ {header code operand}, ReadBack header width reg rm code operand → header.lead = lead →
      ∀ rest, header.instruction opcode (operand ++ (immediate ++ rest)) = some (i, rest)) :
    Faithful (fields.after lead) i := by
  obtain ⟨only, rfl, code, readBack⟩ := readBack_of_withRm written lead
  exact faithful_of_fields only opens (Nat.add_le_add readBack.size small) (read readBack rfl)

/-! ### Families of opcodes -/

/-- An opcode for bytes and its successor for wider operands, both of which are read in one way. -/
structure Family (opcode : Byte) (read : Header → Width → List Byte → Option (Instr × List Byte)) : Prop where
  even : opcode.getLsbD 0 = false
  opens : ∀ w, IsOpcode (sized opcode w)
  dispatch : ∀ header w bytes, header.instruction (sized opcode w) bytes =
    read header (header.width (sized opcode w)) bytes

theorem odd_succ : ∀ opcode : Byte, opcode.getLsbD 0 = false → (opcode + 1).getLsbD 0 = true := by
  decide

/-- The opcode and the header give back the operand width. -/
theorem width_sized {header : Header} {opcode : Byte} {w : Width} (even : opcode.getLsbD 0 = false)
    (wide : w ≠ .b8 → header.wide = w) : header.width (sized opcode w) = w := by
  by_cases byte : w = .b8
  · rw [sized, if_pos byte, Header.width, even, byte]
    rfl
  · rw [sized, if_neg byte, Header.width, odd_succ opcode even, if_pos rfl, wide byte]

/-- The bits of an arithmetic opcode. -/
theorem arithmetic_bits (digit : BitVec 3) (w : Width) (reversed : Bool) :
    let opcode := sized (0b00#2 ++ digit ++ BitVec.ofBool false ++ BitVec.ofBool reversed ++ 0b0#1) w
    IsOpcode opcode ∧ (opcode.extractLsb' 6 2 = 0b00 ∧ (!opcode.getLsbD 2) = true) ∧ opcode.getLsbD 1 = reversed ∧
      opcode.extractLsb' 3 3 = digit := by
  cases w <;> revert digit reversed <;> decide

theorem family_arithmetic (digit : BitVec 3) :
    Family (0b00#2 ++ digit ++ 0b000#3) fun header w => header.rmReg w (arithmeticOf digit) := by
  have same : (0b00#2 ++ digit ++ 0b000#3 : Byte) =
      0b00#2 ++ digit ++ BitVec.ofBool false ++ BitVec.ofBool false ++ 0b0#1 := by
    revert digit; decide
  rw [same]
  refine ⟨by revert digit; decide, fun w => (arithmetic_bits digit w false).1, fun header w bytes => ?_⟩
  obtain ⟨-, shape, order, field⟩ := arithmetic_bits digit w false
  rw [Header.instruction, if_pos shape, Header.arithmetic, field, order]
  rfl

theorem family_arithmetic_reversed (digit : BitVec 3) :
    Family (0b00#2 ++ digit ++ 0b000#3 + 2) fun header w => header.regRm w (arithmeticOf digit) := by
  have same : (0b00#2 ++ digit ++ 0b000#3 + 2 : Byte) =
      0b00#2 ++ digit ++ BitVec.ofBool false ++ BitVec.ofBool true ++ 0b0#1 := by
    revert digit; decide
  rw [same]
  refine ⟨by revert digit; decide, fun w => (arithmetic_bits digit w true).1, fun header w bytes => ?_⟩
  obtain ⟨-, shape, order, field⟩ := arithmetic_bits digit w true
  rw [Header.instruction, if_pos shape, Header.arithmetic, field, order]
  rfl

theorem family_arithmetic_immediate :
    Family 0x80 fun header w => header.rmImm w (min w.bytes 4) fun digit => some (arithmeticOf digit) :=
  ⟨by decide, fun w => by cases w <;> decide, fun header w bytes => by cases w <;> rfl⟩

theorem family_test : Family 0x84 fun header w => header.rmReg w .test :=
  ⟨by decide, fun w => by cases w <;> decide, fun header w bytes => by cases w <;> rfl⟩

theorem family_exchange : Family 0x86 fun header w => header.rmReg w .xchg :=
  ⟨by decide, fun w => by cases w <;> decide, fun header w bytes => by cases w <;> rfl⟩

theorem family_store : Family 0x88 fun header w => header.rmReg w .mov :=
  ⟨by decide, fun w => by cases w <;> decide, fun header w bytes => by cases w <;> rfl⟩

theorem family_load : Family 0x8a fun header w => header.regRm w .mov :=
  ⟨by decide, fun w => by cases w <;> decide, fun header w bytes => by cases w <;> rfl⟩

theorem family_count : Family 0xc0 fun header w => header.shiftByByte w :=
  ⟨by decide, fun w => by cases w <;> decide, fun header w bytes => by cases w <;> rfl⟩

theorem family_move_immediate :
    Family 0xc6 fun header w => header.rmImm w (min w.bytes 4) fun digit => if digit = 0 then some .mov else none :=
  ⟨by decide, fun w => by cases w <;> decide, fun header w bytes => by cases w <;> rfl⟩

theorem family_count_one : Family 0xd0 fun header w => header.shiftBy w (.imm 1 .b8) :=
  ⟨by decide, fun w => by cases w <;> decide, fun header w bytes => by cases w <;> rfl⟩

theorem family_count_register : Family 0xd2 fun header w => header.shiftBy w (.reg ⟨.rcx, .b8, false⟩) :=
  ⟨by decide, fun w => by cases w <;> decide, fun header w bytes => by cases w <;> rfl⟩

theorem family_negation : Family 0xf6 fun header w => header.negation w :=
  ⟨by decide, fun w => by cases w <;> decide, fun header w bytes => by cases w <;> rfl⟩

/-! ### Operand combinations -/

theorem extend_immediate {value : Word} {w : Width} (checked : checkImmediate value w = .ok ()) :
    (value.setWidth (8 * min w.bytes 4)).signExtend 64 = (value.setWidth w.bits).signExtend 64 := by
  unfold checkImmediate at checked
  split at checked
  next fits =>
    cases w with
    | b64 =>
      have signed : isSigned 32 value = true := fits
      refine (signExtend_setWidth_of_isSigned signed).trans ?_
      simp [Width.bits]
    | _ => rfl
  next => cases checked

theorem length_immediateBytes (value : Word) (w : Width) : (immediateBytes value w).length ≤ 4 := by
  simp only [immediateBytes, length_toBytes]
  omega

section
variable {opcode : Byte} {operation : Operation} {rm : Rm} {fields : Fields}

theorem ReadBack.width {header : Header} {w : Width} {reg : RegField} {code : BitVec 3} {operand : List Byte}
    (back : ReadBack header (some w) reg rm code operand) (even : opcode.getLsbD 0 = false) :
    header.width (sized opcode w) = w :=
  width_sized even (back.wide w rfl)

/-- A source in the register field. -/
theorem faithful_rmReg {r : RegOperand} (family : Family opcode fun header w => header.rmReg w operation)
    (written : withRm (some r.width) (sized opcode r.width) (.reg r) rm [] = .ok fields) (takes : rm.Takes r.width)
    (lead : Prefix) :
    Faithful (fields.after lead) (.pair lead operation (rm.shown r.width) (.reg r)) := by
  apply faithful_of_withRm written (family.opens _) (by simp)
  rintro header code operand back rfl rest
  rw [family.dispatch, back.width family.even]
  simp [Header.rmReg, back.rm _ takes, back.register r rfl, Header.two, Instr.pair]

/-- A destination in the register field. -/
theorem faithful_regRm {r : RegOperand} (family : Family opcode fun header w => header.regRm w operation)
    (written : withRm (some r.width) (sized opcode r.width) (.reg r) rm [] = .ok fields) (takes : rm.Takes r.width)
    (lead : Prefix) :
    Faithful (fields.after lead) (.pair lead operation (.reg r) (rm.shown r.width)) := by
  apply faithful_of_withRm written (family.opens _) (by simp)
  rintro header code operand back rfl rest
  rw [family.dispatch, back.width family.even]
  simp [Header.regRm, back.rm _ takes, back.register r rfl, Header.two, Instr.pair]

/-- An immediate after ModRM. -/
theorem rmImm_eq {header : Header} {width : Option Width} {digit code : BitVec 3} {operand : List Byte}
    (back : ReadBack header width (.digit digit) rm code operand) {w : Width} (takes : rm.Takes w) {count : Nat}
    {value : Word} (extended : (value.setWidth (8 * count)).signExtend 64 = (value.setWidth w.bits).signExtend 64)
    {choose : BitVec 3 → Option Operation} (chosen : choose digit = some operation) (rest : List Byte) :
    header.rmImm w count choose (operand ++ (toBytes value count ++ rest)) =
      some (.pair header.lead operation (rm.shown w) (.extended value w), rest) := by
  simp only [Header.rmImm, back.rm _ takes, Option.bind_eq_bind, Option.bind_some, back.digit digit rfl, chosen,
    readSigned_toBytes, Header.two, extended, Operand.extended, Instr.pair]

variable (rm) in
/-- An immediate of the operand width after ModRM. -/
theorem faithful_rmImm {choose : BitVec 3 → Option Operation}
    (family : Family opcode fun header w => header.rmImm w (min w.bytes 4) choose) {digit : BitVec 3} {value : Word}
    (written : withRm (some rm.width) (sized opcode rm.width) (.digit digit) rm (immediateBytes value rm.width) =
      .ok fields) (checked : checkImmediate value rm.width = .ok ()) (chosen : choose digit = some operation)
    (lead : Prefix) :
    Faithful (fields.after lead) (.pair lead operation (rm.shown rm.width) (.extended value rm.width)) := by
  apply faithful_of_withRm written (family.opens _) (length_immediateBytes ..)
  rintro header code operand back rfl rest
  rw [family.dispatch, back.width family.even]
  exact rmImm_eq back rm.takes_width (extend_immediate checked) chosen rest

end

/-- An operand alone in ModRM. -/
theorem rmOnly_eq {header : Header} {width : Option Width} {digit code : BitVec 3} {rm : Rm} {operand : List Byte}
    (back : ReadBack header width (.digit digit) rm code operand) {w : Width} (takes : rm.Takes w)
    {choose : BitVec 3 → Option Opcode} {opcode : Opcode} (chosen : choose digit = some opcode) (rest : List Byte) :
    header.rmOnly w choose (operand ++ rest) =
      some ({ lead := header.lead, opcode, operands := { first := rm.shown w } }, rest) := by
  simp only [Header.rmOnly, back.rm _ takes, Option.bind_eq_bind, Option.bind_some, back.digit digit rfl, chosen,
    Header.one]

/-! ### A register in the opcode -/

theorem faithful_of_withReg {opcode : BitVec 5} {r : RegOperand} {immediate : List Byte} {fields : Fields}
    {lead : Prefix} {i : Instr} (written : withReg opcode r immediate = .ok fields)
    (opens : ∀ code : BitVec 3, IsOpcode (opcode ++ code)) (small : immediate.length ≤ 8)
    (read : ∀ {header : Header} {code : BitVec 3}, (r.width ≠ .b8 → header.wide = r.width) →
      registerOperand header r.width header.extension.b code = r → header.lead = lead →
      ∀ rest, header.instruction (opcode ++ code) (immediate ++ rest) = some (i, rest)) :
    Faithful (fields.after lead) i := by
  obtain ⟨code, coded, written⟩ := ok_of_bind written
  obtain ⟨rex, chosen, written⟩ := ok_of_bind written
  cases written
  have extension := extension_of_rexFor chosen
  have same : (rex.getD {}).b = r.reg.extended := congrArg Rex.b extension
  have listed : registerOperand ⟨lead, false, r.width = .b16, rex⟩ r.width r.reg.extended code = r :=
    registerOperand_of_code coded chosen (fun _ => by simp) (fun empty => congrArg Rex.b empty)
  rw [← same] at listed
  have bound : immediate.length ≤ 10 := Nat.le_trans small (by decide)
  exact faithful_of_fields rfl (opens code) (by simpa using bound)
    (read (wide_of_rex (congrArg Rex.w extension) rfl) listed rfl)

/-- The bits of an opcode that names a register. -/
theorem named_fields (kind : BitVec 5) (code : BitVec 3) :
    (kind ++ code : Byte).extractLsb' 6 2 = kind.extractLsb' 3 2 ∧ (kind ++ code : Byte).extractLsb' 3 5 = kind ∧
      (kind ++ code : Byte).extractLsb' 0 3 = code := by
  revert kind code
  decide

theorem instruction_named {kind : BitVec 5} (upper : kind.extractLsb' 3 2 ≠ 0b00) (header : Header) (code : BitVec 3)
    (bytes : List Byte) :
    header.instruction (kind ++ code) bytes =
      if kind = 0b01010 then header.long (header.one .push (.full (registerOf header.extension.b code)) bytes)
      else if kind = 0b01011 then header.long (header.one .pop (.full (registerOf header.extension.b code)) bytes)
      else if kind = 0b10110 then header.moveImmediate .b8 (kind ++ code) bytes
      else if kind = 0b10111 then header.moveImmediate header.wide (kind ++ code) bytes
      else header.single (kind ++ code) bytes := by
  obtain ⟨upperField, kindField, codeField⟩ := named_fields kind code
  have other : ¬((kind ++ code : Byte).extractLsb' 6 2 = 0b00 ∧ (!(kind ++ code : Byte).getLsbD 2) = true) := by
    rw [upperField]
    exact fun both => upper both.1
  rw [Header.instruction, if_neg other, kindField, Header.named, codeField]

theorem moveImmediate_eq {header : Header} {r : RegOperand} {code : BitVec 3}
    (named : registerOperand header r.width header.extension.b code = r) (kind : BitVec 5) (value : Word)
    (rest : List Byte) :
    header.moveImmediate r.width (kind ++ code) (toBytes value r.width.bytes ++ rest) =
      some (.pair header.lead .mov (.reg r) (.extended value r.width), rest) := by
  have bits : 8 * r.width.bytes = r.width.bits := by cases r.width <;> rfl
  simp only [Header.moveImmediate, readSigned_toBytes, Option.bind_eq_bind, Option.bind_some,
    (named_fields kind code).2.2, named, Header.two, Operand.extended, Instr.pair]
  rw [bits]

end Rehost.Host.Encoding
