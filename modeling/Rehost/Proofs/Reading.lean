import Rehost.Host.Encoding.Decoder
import Rehost.Host.Encoding.Normal
import Rehost.Host.Encoding.Operations
import Rehost.Proofs.Form
import Rehost.Proofs.Word

/-!
# Reading back the fields of an instruction

Every field of an encoded instruction is read back from its bytes, whatever follows them: numbers
(`readSigned_toBytes`), registers (`registerOperand_of_code`), what stands before the opcode
(`readHeader_bytes`), and operands in memory with the ModRM byte that names them (`readRm_field`). Together
they give back the operands of every instruction with a ModRM byte (`readBack_of_withRm`).
-/

namespace Rehost

/-! ### Numbers -/

namespace Host.Encoding

theorem readSigned_toBytes {n : Nat} (value : BitVec n) (count m : Nat) (rest : List Byte) :
    readSigned count m (toBytes value count ++ rest) =
      some ((value.setWidth (8 * count)).signExtend m, rest) := by
  have long : count ≤ (toBytes value count ++ rest).length := by simp
  have taken : (toBytes value count ++ rest).take count = toBytes value count :=
    List.take_left' (length_toBytes ..)
  have dropped : (toBytes value count ++ rest).drop count = rest :=
    List.drop_left' (length_toBytes ..)
  rw [readSigned, if_pos long, taken, dropped, ofNat_ofBytes_toBytes]

theorem signExtend_setWidth_of_isSigned {k n : Nat} {value : BitVec n} (signed : isSigned k value = true) :
    (value.setWidth k).signExtend n = value := by
  simpa [isSigned] using signed

/-- A value that has eight bits and a sign is known by any number of bits from eight upwards. -/
theorem signExtend_setWidth_of_byte {value : Word} (signed : isSigned 8 value = true) (w : Width) :
    (value.setWidth w.bits).signExtend 64 = value := by
  have byte := congrArg BitVec.toInt (signExtend_setWidth_of_isSigned signed)
  rw [BitVec.toInt_signExtend_of_le (by decide)] at byte
  have lower := BitVec.le_toInt (value.setWidth 8)
  have upper := BitVec.toInt_lt (x := value.setWidth 8)
  rw [byte] at lower upper
  apply BitVec.eq_of_toInt_eq
  rw [BitVec.toInt_signExtend_of_le w.bits_le, ← BitVec.signExtend_eq_setWidth_of_le value w.bits_le,
    BitVec.toInt_signExtend_eq_toInt_bmod_of_le value w.bits_le]
  apply Int.bmod_eq_of_le <;> cases w <;> simp only [Width.bits] <;> omega

/-! ### Registers -/

@[simp] theorem registerOf_low (r : Reg) : registerOf r.extended r.low = r := by
  revert r
  decide

theorem extension_of_rexFor {rex : Rex} {registers : List RegOperand} {found : Option Rex}
    (chosen : rexFor rex registers = .ok found) : found.getD {} = rex := by
  unfold rexFor at chosen
  split at chosen
  next none =>
    cases chosen
    exact none.1.symm
  next =>
    split at chosen
    · cases chosen
    · cases chosen
      rfl

/-- Beside a REX byte there is no high byte, and without one no register that needs it. -/
theorem rex_cases {rex : Rex} {registers : List RegOperand} {found : Option Rex}
    (chosen : rexFor rex registers = .ok found) :
    (found = none ∧ rex = {} ∧ ∀ r ∈ registers, needsRex r = false) ∨
      found ≠ none ∧ ∀ r ∈ registers, r.high = false := by
  unfold rexFor at chosen
  split at chosen
  next none =>
    cases chosen
    exact .inl ⟨rfl, none.1, by simpa using none.2⟩
  next =>
    split at chosen
    · cases chosen
    next low =>
      cases chosen
      exact .inr ⟨by simp, by simpa using low⟩

theorem high_code : ∀ r : Reg, r.val < 4 →
    (BitVec.ofNat 3 (r.val + 4)).getLsbD 2 = true ∧ registerOf false (BitVec.ofNat 3 (r.val + 4) &&& 0b011) = r := by
  decide

theorem low_code : ∀ r : Reg, r.val < 4 → r.low.getLsbD 2 = false := by
  decide

/-- A register is read back from its number. -/
theorem registerOperand_of_code {header : Header} {r : RegOperand} {code : BitVec 3} {rex : Rex}
    {registers : List RegOperand} (coded : registerCode r = .ok code)
    (chosen : rexFor rex registers = .ok header.rex) (listed : r.width = .b8 → r ∈ registers)
    (shown : rex = {} → r.reg.extended = false) : registerOperand header r.width r.reg.extended code = r := by
  obtain ⟨reg, width, high⟩ := r
  unfold registerCode at coded
  cases high with
  | true =>
    simp only [if_true] at coded
    split at coded
    next byte =>
      obtain ⟨rfl, small⟩ := byte
      cases coded
      obtain ⟨none, -, -⟩ | ⟨-, low⟩ := rex_cases chosen
      · obtain ⟨upper, named⟩ := high_code reg small
        rw [registerOperand, if_pos ⟨rfl, none, upper⟩, named]
      · cases low _ (listed rfl)
    next => cases coded
  | false =>
    cases coded
    have plain : ¬(width = .b8 ∧ header.rex = none ∧ reg.low.getLsbD 2 = true) := by
      rintro ⟨rfl, none, upper⟩
      obtain ⟨-, empty, free⟩ | ⟨some, -⟩ := rex_cases chosen
      · have unneeded := free _ (listed rfl)
        have small := shown empty
        simp [needsRex, Reg.extended] at unneeded small
        rw [low_code reg (by omega)] at upper
        cases upper
      · exact some none
    rw [registerOperand, if_neg plain, registerOf_low]

/-! ### Before the opcode -/

theorem ofByte?_byte (rex : Rex) : Rex.ofByte? rex.byte = some rex := by
  obtain ⟨w, r, x, b⟩ := rex
  revert w r x b
  decide

/-- Bytes that stand before an opcode beside REX. -/
def marks : List Byte := [0xf0, 0xf3, 0xf2, 0x67, 0x66]

/-- Whether a byte is none of those that stand before an opcode. -/
def IsOpcode (byte : Byte) : Prop := byte ∉ marks ∧ Rex.ofByte? byte = none

instance (byte : Byte) : Decidable (IsOpcode byte) :=
  inferInstanceAs (Decidable (byte ∉ marks ∧ Rex.ofByte? byte = none))

theorem mark?_eq_none {byte : Byte} (other : byte ∉ marks) (header : Header) : header.mark? byte = none := by
  simp only [marks, List.mem_cons, List.not_mem_nil, or_false, not_or] at other
  obtain ⟨lock, rep, repne, address, operand⟩ := other
  rw [Header.mark?, if_neg lock, if_neg rep, if_neg repne, if_neg address, if_neg operand]

theorem byte_not_mem_marks (rex : Rex) : rex.byte ∉ marks := by
  obtain ⟨w, r, x, b⟩ := rex
  revert w r x b
  decide

theorem readHeader_lead (lead : Prefix) (rest : List Byte) :
    readHeader {} ((leadByte lead).toList ++ rest) = readHeader { lead } rest := by
  cases lead <;> rfl

theorem readHeader_address (lead : Prefix) (address : Bool) (rest : List Byte) :
    readHeader { lead } ((if address then [0x67] else []) ++ rest) =
      readHeader { lead, addressOverride := address } rest := by
  cases address <;> rfl

theorem readHeader_operand (lead : Prefix) (address operand : Bool) (rest : List Byte) :
    readHeader { lead, addressOverride := address } ((if operand then [0x66] else []) ++ rest) =
      readHeader { lead, addressOverride := address, operandOverride := operand } rest := by
  cases operand <;> rfl

theorem readHeader_rex {lead : Prefix} {address operand : Bool} {opcode : Byte} (opens : IsOpcode opcode)
    (rex : Option Rex) (rest : List Byte) :
    readHeader ⟨lead, address, operand, none⟩ ((rex.map Rex.byte).toList ++ opcode :: rest) =
      (⟨lead, address, operand, rex⟩, opcode :: rest) := by
  cases rex with
  | none => simp only [Option.map_none, Option.toList_none, List.nil_append, readHeader, mark?_eq_none opens.1, opens.2]
  | some rex =>
    simp only [Option.map_some, Option.toList_some, List.singleton_append, readHeader,
      mark?_eq_none (byte_not_mem_marks rex), ofByte?_byte]

/-- What stands before the opcode of an instruction is read back. -/
theorem readHeader_bytes {fields : Fields} {opcode : Byte} (only : fields.opcode = [opcode])
    (opens : IsOpcode opcode) (lead : Prefix) (rest : List Byte) :
    readHeader {} ({ fields with lead := leadByte lead }.bytes ++ rest) =
      (⟨lead, fields.addressOverride, fields.operandOverride, fields.rex⟩,
        opcode :: (fields.operand ++ (fields.immediate ++ rest))) := by
  simp only [Fields.bytes, only, List.append_assoc]
  rw [readHeader_lead, readHeader_address, readHeader_operand, List.singleton_append, readHeader_rex opens]

/-! ### ModRM, SIB and displacement -/

theorem modrm_fields (mode : BitVec 2) (reg rm : BitVec 3) :
    (modrm mode reg rm).extractLsb' 6 2 = mode ∧ (modrm mode reg rm).extractLsb' 3 3 = reg ∧
      (modrm mode reg rm).extractLsb' 0 3 = rm := by
  revert mode reg rm
  decide

theorem sib_fields (scale : BitVec 2) (index base : BitVec 3) :
    (sib scale index base).extractLsb' 6 2 = scale ∧ (sib scale index base).extractLsb' 3 3 = index ∧
      (sib scale index base).extractLsb' 0 3 = base :=
  modrm_fields scale index base

theorem code_of_extended : ∀ r : Reg, r.low = 0b100 → r.extended = false → r = .rsp := by
  decide

/-- A memory operand can be written if its index can be, and then its scale is known. -/
theorem index_of_memField {reg : BitVec 3} {m : Mem} {bytes : List Byte} (written : memField reg m = .ok bytes) :
    ∃ scale, scaleCode m = .ok scale ∧ m.index ≠ some .rsp := by
  obtain ⟨scale, scaled, written⟩ := ok_of_bind written
  refine ⟨scale, scaled, ?_⟩
  rintro stack
  rw [if_pos stack] at written
  cases written

theorem scale_of_scaleCode {m : Mem} {scale : BitVec 2} {r : Reg} (index : m.index = some r)
    (scaled : scaleCode m = .ok scale) : 1 <<< scale.toNat = m.scale := by
  unfold scaleCode at scaled
  split at scaled
  next none => rw [index] at none; cases none
  all_goals cases scaled <;> simp_all

/-- What the SIB byte says of an index is read back. -/
theorem index_read {m : Mem} {scale : BitVec 2} {extended : Bool} (scaled : scaleCode m = .ok scale)
    (notStack : m.index ≠ some .rsp) (shown : extended = m.index.any Reg.extended) :
    let code := (m.index.map Reg.low).getD 0b100
    (if code = 0b100 ∧ !extended then none else some (registerOf extended code)) = m.index ∧
      (if code = 0b100 ∧ !extended then 1 else 1 <<< scale.toNat) = m.normal.scale := by
  subst shown
  cases index : m.index with
  | none => simp [Mem.normal, index]
  | some r =>
    have named : ¬(r.low = 0b100 ∧ (!r.extended) = true) := by
      rintro ⟨code, lower⟩
      rw [index, code_of_extended r code (by simpa using lower)] at notStack
      exact notStack rfl
    simp only [Option.map_some, Option.getD_some, Option.any_some, if_neg named, registerOf_low,
      scale_of_scaleCode index scaled, Mem.normal, index, Option.isNone_some, Bool.false_eq_true, if_false,
      and_self]

/-- A displacement is read back from the bytes that its mode gives it. -/
theorem readSigned_displacement (displacement : BitVec 32) (base : Reg) (rest : List Byte) :
    readSigned (displacementSize (mode displacement base) (some base)) 32
        (displacementBytes (mode displacement base) displacement ++ rest) = some (displacement, rest) := by
  unfold mode
  split
  next zero =>
    obtain ⟨rfl, -⟩ := zero
    exact readSigned_toBytes 0#32 0 32 rest
  next =>
    split
    next signed =>
      exact (readSigned_toBytes displacement 1 32 rest).trans (by rw [signExtend_setWidth_of_isSigned signed])
    next => exact (readSigned_toBytes displacement 4 32 rest).trans (by simp)

/-- Mode 0 does not go with the code that means something else there. -/
theorem mode_zero {displacement : BitVec 32} {base : Reg} (code : base.low = 0b101) :
    mode displacement base ≠ 0b00 := by
  unfold mode
  rw [if_neg (fun zero => zero.2 code)]
  split <;> decide

theorem mode_ne_three (displacement : BitVec 32) (base : Reg) : mode displacement base ≠ 0b11 := by
  unfold mode
  split
  · decide
  · split <;> decide

/-- The header has the extension bits and the address size of a memory operand. -/
structure Header.Addresses (header : Header) (m : Mem) : Prop where
  base : header.extension.b = m.base.any Reg.extended
  index : header.extension.x = m.index.any Reg.extended
  addr32 : header.addressOverride = m.addr32

/-- The registers of an address are read back from a SIB byte. -/
theorem readAddressing_sib {header : Header} {m : Mem} (addresses : header.Addresses m) {scale : BitVec 2}
    (scaled : scaleCode m = .ok scale) (notStack : m.index ≠ some .rsp) (mode : BitVec 2) (base : BitVec 3)
    (rest : List Byte) :
    readAddressing header mode 0b100 (sib scale ((m.index.map Reg.low).getD 0b100) base :: rest) =
      some (⟨if base = 0b101 ∧ mode = 0b00 then none else some (registerOf header.extension.b base), m.index,
        m.normal.scale⟩, rest) := by
  obtain ⟨index, factor⟩ := index_read scaled notStack addresses.index
  obtain ⟨scaleField, indexField, baseField⟩ := sib_fields scale ((m.index.map Reg.low).getD 0b100) base
  simp only [readAddressing, if_pos, scaleField, indexField, baseField, index, factor]

/-- A memory operand is read back from the registers and the displacement that follow ModRM. -/
theorem readMem_eq {header : Header} {m : Mem} (addresses : header.Addresses m) {mode : BitVec 2} {rm : BitVec 3}
    {bytes rest : List Byte} {after : List Byte}
    (registers : readAddressing header mode rm bytes = some (⟨m.base, m.index, m.normal.scale⟩, rest))
    (displacement : readSigned (displacementSize mode m.base) 32 rest = some (m.displacement, after)) (w : Width) :
    readMem header mode rm w bytes = some ({ m.normal with width := w }, after) := by
  have same : m.normal = { m with scale := m.normal.scale } := by
    unfold Mem.normal
    split <;> rfl
  rw [same]
  simp [readMem, registers, displacement, addresses.addr32]

theorem readRm_modrm {header : Header} {mode : BitVec 2} {m : Mem} {rm : BitVec 3} {bytes after : List Byte} {w : Width}
    (memory : mode ≠ 0b11) (read : readMem header mode rm w bytes = some (m, after)) (reg : BitVec 3) :
    readRm header w (modrm mode reg rm :: bytes) = some (reg, .mem m, after) := by
  obtain ⟨modeField, regField, rmField⟩ := modrm_fields mode reg rm
  simp only [readRm, modeField, regField, rmField, if_neg memory, read]
  rfl

/-- The bits of the register field and the length of ModRM do not depend on the operand width. -/
theorem readRm_width {header : Header} {w : Width} {bytes rest : List Byte} {code : BitVec 3} {operand : Operand}
    (read : readRm header w bytes = some (code, operand, rest)) (v : Width) :
    ∃ operand, readRm header v bytes = some (code, operand, rest) := by
  cases bytes with
  | nil => cases read
  | cons byte bytes =>
    simp only [readRm] at read ⊢
    split at read
    next register =>
      cases read
      rw [if_pos register]
      exact ⟨_, rfl⟩
    next memory =>
      obtain ⟨⟨m, after⟩, found, same⟩ := Option.bind_eq_some_iff.mp read
      obtain ⟨⟨addressing, middle⟩, registers, found⟩ := Option.bind_eq_some_iff.mp found
      obtain ⟨⟨displacement, last⟩, offset, found⟩ := Option.bind_eq_some_iff.mp found
      cases found
      cases same
      rw [if_neg memory]
      simp only [readMem, registers, offset, Option.bind_eq_bind, Option.bind_some]
      exact ⟨_, rfl⟩

/-- A memory operand is read back. -/
theorem readRm_memField {header : Header} {m : Mem} (addresses : header.Addresses m) {reg : BitVec 3}
    {bytes : List Byte} (written : memField reg m = .ok bytes) (w : Width) (rest : List Byte) :
    readRm header w (bytes ++ rest) = some (reg, .mem { m.normal with width := w }, rest) := by
  obtain ⟨scale, scaled, notStack⟩ := index_of_memField written
  have sibRead := readAddressing_sib addresses scaled notStack
  simp only [memField, scaled, bind, Except.bind, if_neg notStack] at written
  cases base : m.base with
  | none =>
    simp only [base] at written
    cases written
    apply readRm_modrm (by decide)
    refine readMem_eq addresses ((sibRead ..).trans (by rw [base]; rfl)) ?_ w
    rw [base]
    exact (readSigned_toBytes m.displacement 4 32 rest).trans (by simp)
  | some r =>
    simp only [base] at written
    have extended : header.extension.b = r.extended := by rw [addresses.base, base]; rfl
    have read := readSigned_displacement m.displacement r rest
    rw [← base] at read
    have ordinary : ¬(r.low = 0b101 ∧ mode m.displacement r = 0b00) := fun both => mode_zero both.1 both.2
    split at written
    · cases written
      apply readRm_modrm (mode_ne_three m.displacement r)
      refine readMem_eq addresses ((sibRead ..).trans ?_) read w
      rw [if_neg ordinary, extended, registerOf_low, base]
      rfl
    next direct =>
      cases written
      obtain ⟨index, code⟩ := not_or.mp direct
      have none : m.index = Option.none := by simpa using index
      apply readRm_modrm (mode_ne_three m.displacement r)
      refine readMem_eq addresses ?_ read w
      simp only [readAddressing, if_neg code, if_neg ordinary, extended, registerOf_low,
        base, none, Mem.normal]
      rfl

/-! ### Instructions with a ModRM byte -/

namespace Rm

/-- Whether an operand can be read at a width. -/
def Takes (w : Width) : Rm → Prop
  | reg r => r.width = w
  | mem _ => True

/-- The operand as it is read back at a width. -/
def shown (w : Width) : Rm → Operand
  | reg r => .reg r
  | mem m => .mem { m.normal with width := w }

theorem takes_width (rm : Rm) : rm.Takes rm.width := by
  cases rm with
  | reg r => rfl
  | mem m => trivial

theorem shown_width {operand : Operand} {rm : Rm} (found : ofOperand? operand = some rm) :
    rm.shown rm.width = operand.normal := by
  cases operand with
  | reg r => cases found; rfl
  | mem m =>
    cases found
    simp only [shown, width, Operand.normal, Mem.normal]
    split <;> rfl
  | imm v w => cases found
  | label l => cases found

end Rm

/-- What a header and the bytes of the operand field show: the operand width, the bits of the register field,
and both operands. -/
structure ReadBack (header : Header) (width : Option Width) (reg : RegField) (rm : Rm) (code : BitVec 3)
    (operand : List Byte) : Prop where
  wide : ∀ w, width = some w → w ≠ .b8 → header.wide = w
  long : width = none → header.operandOverride = false
  digit : ∀ d, reg = .digit d → code = d
  register : ∀ r, reg = .reg r → registerOperand header r.width header.extension.r code = r
  rm : ∀ w, rm.Takes w → ∀ rest, readRm header w (operand ++ rest) = some (code, rm.shown w, rest)
  size : operand.length ≤ 6

theorem length_memField {reg : BitVec 3} {m : Mem} {bytes : List Byte} (written : memField reg m = .ok bytes) :
    bytes.length ≤ 6 := by
  obtain ⟨scale, scaled, notStack⟩ := index_of_memField written
  simp only [memField, scaled, bind, Except.bind, if_neg notStack] at written
  have short (mode : BitVec 2) : (displacementBytes mode m.displacement).length ≤ 4 := by
    unfold displacementBytes
    split
    · simp
    · split <;> simp
  split at written
  · cases written
    simp
  next base _ =>
    have bound := short (mode m.displacement base)
    split at written <;> cases written <;> simp only [List.length_append, List.length_cons, List.length_nil] <;> omega

theorem wide_of_rex {header : Header} {w : Width} (rex : header.extension.w = decide (w = .b64))
    (override : header.operandOverride = decide (w = .b16)) (wider : w ≠ .b8) : header.wide = w := by
  cases w with
  | b8 => exact absurd rfl wider
  | _ => simp [Header.wide, rex, override]

/-- An operand in ModRM is read back. -/
theorem readRm_field {header : Header} {rm : Rm} {rex : Rex} {registers : List RegOperand} {code : BitVec 3}
    {operand : List Byte} (chosen : rexFor rex registers = .ok header.rex)
    (listed : ∀ r ∈ rm.byteRegisters, r ∈ registers) (base : rex.b = rm.baseExtended)
    (index : rex.x = rm.indexExtended) (address : header.addressOverride = rm.addr32)
    (written : rm.field code = .ok operand) (w : Width) (takes : rm.Takes w) (rest : List Byte) :
    readRm header w (operand ++ rest) = some (code, rm.shown w, rest) := by
  have extension : header.extension = rex := extension_of_rexFor chosen
  cases rm with
  | mem m =>
    exact readRm_memField ⟨by rw [extension, base]; rfl, by rw [extension, index]; rfl, address⟩ written w rest
  | reg r =>
    obtain rfl : r.width = w := takes
    obtain ⟨rmCode, coded, done⟩ := ok_of_bind written
    cases done
    have read : registerOperand header r.width r.reg.extended rmCode = r := by
      refine registerOperand_of_code coded chosen (fun byte => listed r ?_) (fun empty => ?_)
      · simp [Rm.byteRegisters, byte]
      · rw [empty] at base
        exact base.symm
    obtain ⟨modeField, regField, rmField⟩ := modrm_fields 0b11 code rmCode
    have same : header.extension.b = r.reg.extended := by rw [extension, base]; rfl
    simp only [List.singleton_append, readRm, modeField, regField, rmField, same, read]
    rfl

/-- The fields of an instruction with a ModRM byte are read back. -/
theorem readBack_of_withRm {width : Option Width} {opcode : Byte} {reg : RegField} {rm : Rm} {immediate : List Byte}
    {fields : Fields} (written : withRm width opcode reg rm immediate = .ok fields) (lead : Prefix) :
    fields.opcode = [opcode] ∧ fields.immediate = immediate ∧
      ∃ code, ReadBack ⟨lead, fields.addressOverride, fields.operandOverride, fields.rex⟩ width reg rm code
        fields.operand := by
  obtain ⟨code, coded, written⟩ := ok_of_bind written
  obtain ⟨rex, chosen, written⟩ := ok_of_bind written
  obtain ⟨operand, filled, written⟩ := ok_of_bind written
  cases written
  refine ⟨rfl, rfl, code, ?_⟩
  have extension := extension_of_rexFor chosen
  constructor
  case wide =>
    rintro w rfl wider
    apply wide_of_rex _ _ wider
    · exact (congrArg Rex.w extension).trans (by simp)
    · simp
  case long =>
    rintro rfl
    rfl
  case digit =>
    rintro d rfl
    cases coded
    rfl
  case register =>
    rintro r rfl
    have same : (rex.getD {}).r = r.reg.extended := congrArg Rex.r extension
    have read : registerOperand ⟨lead, rm.addr32, width = some .b16, rex⟩ r.width r.reg.extended code = r :=
      registerOperand_of_code coded chosen (fun byte => by simp [RegField.byteRegisters, byte])
        (fun empty => congrArg Rex.r empty)
    rw [← same] at read
    exact read
  case rm =>
    exact readRm_field chosen (fun r member => List.mem_append_right _ member) rfl rfl rfl filled
  case size =>
    cases rm with
    | mem m => exact length_memField filled
    | reg r =>
      obtain ⟨rmCode, _, done⟩ := ok_of_bind filled
      cases done
      simp

end Host.Encoding

end Rehost
