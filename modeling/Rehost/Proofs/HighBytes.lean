import Rehost.Proofs.Decoding
import Rehost.Proofs.Linking

/-!
# Second bytes of registers

Only `rax`, `rcx`, `rdx` and `rbx` have a second byte that instructions can name (`ah`, `ch`, `dh`, `bh`), and only
without a REX byte. The fields of an encoded instruction keep to this wherever a register stands: in the opcode, in
either part of ModRM, or as the count of a shift (`keeps_of_withRm`, `keeps_of_withReg`). The exception are `push` and
`pop` of a 64-bit register, which do not look at whether its second byte is meant (`highBytesSound_iff`).
-/

namespace Rehost.Host

open Encoding

/-! ### Registers that do not exist -/

/-- Whether a register has a second byte that can be named. -/
def RegOperand.HasHighByte (r : RegOperand) : Prop := r.width = .b8 ∧ r.reg.val < 4

/-- Whether an operand can only be named beside a REX byte. -/
def Operand.AsksRex : Operand → Prop
  | reg r => r.reg.extended = true ∨ needsRex r = true
  | mem m => m.base.any Reg.extended = true ∨ m.index.any Reg.extended = true
  | _ => False

namespace Encoding

/-- What the fields of an instruction with these operands say about second bytes: they exist, and there is no REX
byte beside them nor an operand that needs one. -/
structure Keeps (fields : Fields) (operands : List Operand) : Prop where
  opens : ∃ opcode, fields.opcode = [opcode] ∧ IsOpcode opcode
  high : ∀ r, .reg r ∈ operands → r.high = true →
    r.HasHighByte ∧ fields.rex = none ∧ ∀ operand ∈ operands, ¬ operand.AsksRex

/-! ### Fields -/

theorem hasHighByte_of_registerCode {r : RegOperand} {code : BitVec 3} (coded : registerCode r = .ok code)
    (high : r.high = true) : r.HasHighByte := by
  unfold registerCode at coded
  rw [if_pos high] at coded
  split at coded
  next byte => exact byte
  next => cases coded

theorem byte_of_needsRex {r : RegOperand} (needs : needsRex r = true) : r.width = .b8 := by
  simp only [needsRex, Bool.and_eq_true, decide_eq_true_eq] at needs
  exact needs.1.1.1

theorem not_asksRex_of_low {r : RegOperand} (small : r.reg.extended = false)
    (unforced : r.width = .b8 → needsRex r = false) : ¬ (Operand.reg r).AsksRex := by
  rintro (extended | needs)
  · rw [small] at extended
    cases extended
  · rw [unforced (byte_of_needsRex needs)] at needs
    cases needs

/-- Where an operand of an instruction with a ModRM byte stands. One that stands elsewhere is no second byte and needs
no REX byte. -/
inductive Stands (reg : RegField) (rm : Rm) : Operand → Prop where
  | inReg {r : RegOperand} (same : reg = .reg r) : Stands reg rm (.reg r)
  | inRm {operand : Operand} (same : Rm.ofOperand? operand = some rm) : Stands reg rm operand
  | elsewhere {operand : Operand} (free : ¬ operand.AsksRex) (low : ∀ r, operand = .reg r → r.high = false) :
      Stands reg rm operand

section
variable {width : Option Width} {opcode : Byte} {reg : RegField} {rm : Rm} {immediate : List Byte} {fields : Fields}

/-- A second byte that is named in ModRM exists, and counts among the byte registers. -/
theorem Stands.named {code : BitVec 3} {bytes : List Byte} (coded : reg.code = .ok code)
    (filled : rm.field code = .ok bytes) {r : RegOperand} (stands : Stands reg rm (.reg r)) (high : r.high = true) :
    r.HasHighByte ∧ r ∈ reg.byteRegisters ++ rm.byteRegisters := by
  cases stands with
  | inReg same =>
    subst same
    have byte := hasHighByte_of_registerCode coded high
    exact ⟨byte, List.mem_append_left _ (by simp [RegField.byteRegisters, byte.1])⟩
  | inRm same =>
    obtain rfl : Rm.reg r = rm := Option.some.inj same
    obtain ⟨number, coded, _⟩ := ok_of_bind filled
    have byte := hasHighByte_of_registerCode coded high
    exact ⟨byte, List.mem_append_right _ (by simp [Rm.byteRegisters, byte.1])⟩
  | elsewhere free low =>
    rw [low r rfl] at high
    cases high

/-- What stands in an instruction without a REX byte needs none. -/
theorem Stands.free {w : Bool} (bare : (⟨w, reg.extended, rm.indexExtended, rm.baseExtended⟩ : Rex) = {})
    (unforced : ∀ r ∈ reg.byteRegisters ++ rm.byteRegisters, needsRex r = false) {operand : Operand}
    (stands : Stands reg rm operand) : ¬ operand.AsksRex := by
  rw [Rex.mk.injEq] at bare
  obtain ⟨-, regLow, indexLow, baseLow⟩ := bare
  cases stands with
  | @inReg r same =>
    subst same
    refine not_asksRex_of_low regLow fun byte => unforced r (List.mem_append_left _ ?_)
    simp [RegField.byteRegisters, byte]
  | inRm same =>
    cases operand with
    | reg r =>
      obtain rfl : Rm.reg r = rm := Option.some.inj same
      refine not_asksRex_of_low baseLow fun byte => unforced r (List.mem_append_right _ ?_)
      simp [Rm.byteRegisters, byte]
    | mem m =>
      obtain rfl : Rm.mem m = rm := Option.some.inj same
      have noBase : m.base.any Reg.extended = false := baseLow
      have noIndex : m.index.any Reg.extended = false := indexLow
      simp [Operand.AsksRex, noBase, noIndex]
    | imm value declared => cases same
    | label l => cases same
  | elsewhere free low => exact free

theorem keeps_of_withRm {operands : List Operand} (opens : IsOpcode opcode)
    (written : withRm width opcode reg rm immediate = .ok fields)
    (stand : ∀ operand ∈ operands, Stands reg rm operand) : Keeps fields operands := by
  obtain ⟨code, coded, written⟩ := ok_of_bind written
  obtain ⟨rex, chosen, written⟩ := ok_of_bind written
  obtain ⟨bytes, filled, written⟩ := ok_of_bind written
  cases written
  refine ⟨⟨opcode, rfl, opens⟩, ?_⟩
  intro r member high
  obtain ⟨byte, listed⟩ := (stand _ member).named coded filled high
  obtain ⟨without, bare, unforced⟩ | ⟨-, low⟩ := rex_cases chosen
  · exact ⟨byte, without, fun operand member => (stand operand member).free bare unforced⟩
  · rw [low r listed] at high
    cases high

theorem keeps_of_withReg {opcode : BitVec 5} {r : RegOperand} {value : Word} {declared : Width}
    (opens : ∀ code : BitVec 3, IsOpcode (opcode ++ code)) (written : withReg opcode r immediate = .ok fields) :
    Keeps fields [.reg r, .imm value declared] := by
  obtain ⟨code, coded, written⟩ := ok_of_bind written
  obtain ⟨rex, chosen, written⟩ := ok_of_bind written
  cases written
  refine ⟨⟨opcode ++ code, rfl, opens code⟩, ?_⟩
  intro s member high
  obtain rfl : s = r := by simpa using member
  have byte := hasHighByte_of_registerCode coded high
  obtain ⟨without, bare, unforced⟩ | ⟨-, low⟩ := rex_cases chosen
  · refine ⟨byte, without, fun operand member => ?_⟩
    rw [Rex.mk.injEq] at bare
    obtain rfl | rfl : operand = .reg s ∨ operand = .imm value declared := by simpa using member
    · exact not_asksRex_of_low bare.2.2.2 fun _ => unforced s (List.mem_singleton_self s)
    · exact fun asks => asks
  · rw [low s (List.mem_singleton_self s)] at high
    cases high

theorem Stands.imm (value : Word) (declared : Width) : Stands reg rm (.imm value declared) := by
  refine .elsewhere (fun asks => asks) ?_
  intro r same
  cases same

theorem Stands.count : Stands reg rm (.reg ⟨.rcx, .b8, false⟩) := by
  refine .elsewhere (not_asksRex_of_low rfl fun _ => rfl) ?_
  intro r same
  cases same
  rfl

theorem stand_pair {dst src : Operand} (first : Stands reg rm dst) (second : Stands reg rm src) :
    ∀ operand ∈ [dst, src], Stands reg rm operand := by
  intro operand member
  obtain rfl | rfl : operand = dst ∨ operand = src := by simpa using member
  · exact first
  · exact second

end

/-! ### Operations -/

section
variable {dst src : Operand} {rm : Rm} {r : RegOperand} {m : Mem} {opcode : Byte} {fields : Fields}

/-- A source in the register field. -/
theorem keeps_fromReg (opens : ∀ w, IsOpcode (sized opcode w)) (found : Rm.ofOperand? dst = some rm)
    (written : (do checkWidths rm.width r.width; withRm r.width (sized opcode r.width) (.reg r) rm []) = .ok fields) :
    Keeps fields [dst, .reg r] := by
  obtain ⟨_, _, written⟩ := ok_of_bind written
  exact keeps_of_withRm (opens _) written (stand_pair (.inRm found) (.inReg rfl))

/-- A source in memory. -/
theorem keeps_fromMem (opens : ∀ w, IsOpcode (sized opcode w)) (found : Rm.ofOperand? dst = some (.reg r))
    (written : (do checkWidths r.width m.width; withRm r.width (sized opcode r.width) (.reg r) (.mem m) []) =
      .ok fields) :
    Keeps fields [dst, .mem m] := by
  obtain ⟨_, _, written⟩ := ok_of_bind written
  obtain rfl := reg_of_rm found
  exact keeps_of_withRm (opens _) written (stand_pair (.inReg rfl) (.inRm rfl))

/-- An immediate source. -/
theorem keeps_fromImm {width : Option Width} {digit : BitVec 3} {immediate : List Byte} {value : Word}
    {declared : Width} (opens : IsOpcode opcode) (found : Rm.ofOperand? dst = some rm)
    (written : withRm width opcode (.digit digit) rm immediate = .ok fields) :
    Keeps fields [dst, .imm value declared] :=
  keeps_of_withRm opens written (stand_pair (.inRm found) (.imm value declared))

theorem keeps_arithmetic {digit : BitVec 3} (written : arithmetic digit dst src = .ok fields) :
    Keeps fields [dst, src] := by
  simp only [arithmetic] at written
  split at written
  next found => exact keeps_fromReg (family_arithmetic digit).opens found written
  next found => exact keeps_fromMem (family_arithmetic_reversed digit).opens found written
  next found =>
    obtain ⟨_, _, written⟩ := ok_of_bind written
    split at written
    next => exact keeps_fromImm (by decide) found written
    next =>
      split at written
      next => exact keeps_fromImm (by decide) found written
      next => exact keeps_fromImm (by decide) found written
  next => cases written

theorem keeps_test (written : test dst src = .ok fields) : Keeps fields [dst, src] := by
  simp only [test] at written
  split at written
  next found => exact keeps_fromReg family_test.opens found written
  next found => exact keeps_fromMem family_test.opens found written
  next found =>
    obtain ⟨_, _, written⟩ := ok_of_bind written
    exact keeps_fromImm (family_negation.opens _) found written
  next => cases written

theorem keeps_move (written : move dst src = .ok fields) : Keeps fields [dst, src] := by
  simp only [move] at written
  split at written
  next found => exact keeps_fromReg family_store.opens found written
  next found => exact keeps_fromMem family_load.opens found written
  next r value declared found =>
    obtain rfl := reg_of_rm found
    split at written
    next => exact keeps_of_withReg (by decide) written
    next =>
      obtain ⟨_, _, written⟩ := ok_of_bind written
      split at written
      next => exact keeps_fromImm (by decide) found written
      next => exact keeps_of_withReg (by decide) written
      next => exact keeps_of_withReg (by decide) written
  next found =>
    obtain ⟨_, _, written⟩ := ok_of_bind written
    exact keeps_fromImm (family_move_immediate.opens _) found written
  next => cases written

theorem keeps_exchange (written : exchange dst src = .ok fields) : Keeps fields [dst, src] := by
  simp only [exchange] at written
  split at written
  next found => exact keeps_fromReg family_exchange.opens found written
  next found => exact keeps_fromMem family_exchange.opens found written
  next => cases written

theorem keeps_loadAddress (written : loadAddress dst src = .ok fields) : Keeps fields [dst, src] := by
  unfold loadAddress at written
  split at written
  next =>
    split at written
    · cases written
    · exact keeps_of_withRm (by decide) written (stand_pair (.inReg rfl) (.inRm rfl))
  next => cases written

/-- The count of a shift is an immediate or `cl`, never `ch`. -/
theorem keeps_shift {digit : BitVec 3} (written : shift digit dst src = .ok fields) : Keeps fields [dst, src] := by
  simp only [shift] at written
  split at written
  next => cases written
  next rm found =>
    cases src with
    | imm value declared =>
      simp only at written
      split at written
      next => exact keeps_fromImm (family_count_one.opens _) found written
      next =>
        split at written
        next => exact keeps_fromImm (family_count.opens _) found written
        next => cases written
    | reg r =>
      simp only at written
      split at written
      next same =>
        subst same
        exact keeps_of_withRm (family_count_register.opens _) written (stand_pair (.inRm found) .count)
      next => cases written
    | mem m => cases written
    | label l => cases written

end

section
variable {operand : Operand} {fields : Fields}

theorem keeps_single {width : Option Width} {opcode : Byte} {digit : BitVec 3} {rm : Rm} (opens : IsOpcode opcode)
    (found : Rm.ofOperand? operand = some rm) (written : withRm width opcode (.digit digit) rm [] = .ok fields) :
    Keeps fields [operand] := by
  refine keeps_of_withRm opens written fun other member => ?_
  rw [List.mem_singleton.mp member]
  exact .inRm found

theorem keeps_unary {opcode : Byte} {digit : BitVec 3} (opens : ∀ w, IsOpcode (sized opcode w))
    (written : unary opcode digit operand = .ok fields) : Keeps fields [operand] := by
  unfold unary at written
  split at written
  next found => exact keeps_single (opens _) found written
  next => cases written

theorem keeps_call (written : call operand = .ok fields) : Keeps fields [operand] := by
  unfold call at written
  split at written
  next =>
    split at written
    next => exact keeps_single (by decide) rfl written
    next => cases written
  next => cases written

/-- A stack instruction does not look at whether the second byte of its register is meant. -/
theorem keeps_stack {inOpcode : BitVec 5} {opcode : Byte} {digit : BitVec 3} {name : Opcode}
    (codes : StackCode inOpcode opcode digit name) (written : stack inOpcode opcode digit operand = .ok fields)
    (low : ∀ r, operand = .reg r → r.width = .b64 → r.high = false) : Keeps fields [operand] := by
  unfold stack at written
  split at written
  next r =>
    split at written
    next full =>
      cases written
      refine ⟨⟨_, rfl, codes.opens _⟩, ?_⟩
      intro s member high
      obtain rfl : s = r := by simpa using member
      rw [low s rfl full] at high
      cases high
    next => cases written
  next m =>
    split at written
    next => exact keeps_single codes.opensRm rfl written
    next => cases written
  next => cases written

end

theorem keeps_oneOperand {opcode : Opcode} {operand : Operand} {fields : Fields}
    (written : oneOperand opcode operand = .ok fields)
    (low : opcode = .push ∨ opcode = .pop → ∀ r, operand = .reg r → r.width = .b64 → r.high = false) :
    Keeps fields [operand] := by
  have counting (w : Width) : IsOpcode (sized 0xfe w) := by cases w <;> decide
  unfold oneOperand at written
  split at written
  · exact keeps_unary family_negation.opens written
  · exact keeps_unary family_negation.opens written
  · exact keeps_unary counting written
  · exact keeps_unary counting written
  · exact keeps_stack stackCode_push written (low (.inl rfl))
  · exact keeps_stack stackCode_pop written (low (.inr rfl))
  · exact keeps_call written
  · cases written

theorem keeps_twoOperands {opcode : Opcode} {dst src : Operand} {fields : Fields}
    (written : twoOperands opcode dst src = .ok fields) : Keeps fields [dst, src] := by
  unfold twoOperands at written
  split at written
  next operation =>
    split at written
    next => exact keeps_arithmetic written
    next => exact keeps_shift written
    next =>
      split at written
      · exact keeps_test written
      · exact keeps_move written
      · exact keeps_loadAddress written
      · exact keeps_exchange written
      · cases written
  next => cases written

theorem Keeps.bare {fields : Fields} {operands : List Operand} (keeps : Keeps fields operands)
    (without : fields.rex = none) (lead : Prefix) (rest : List Byte) :
    (readHeader {} ({ fields with lead := leadByte lead }.bytes ++ rest)).1.rex = none := by
  obtain ⟨opcode, only, opens⟩ := keeps.opens
  rw [readHeader_bytes only opens]
  exact without

end Encoding

/-! ### Instructions -/

namespace Instr

/-- Whether an instruction names the second byte of a register. -/
def NamesHigh (i : Instr) (r : RegOperand) : Prop := .reg r ∈ i.operands.operands ∧ r.high = true

/-- Whether an instruction pushes or pops a 64-bit register of which the second byte is meant. -/
def StacksHigh (i : Instr) : Prop :=
  (i.opcode = .push ∨ i.opcode = .pop) ∧
    ∃ r, i.operands = { first := some (.reg r) } ∧ r.width = .b64 ∧ r.high = true

/-- What should hold of an instruction wherever it stands in a listing. In code, it names no second byte that does not
exist, and has no REX byte if it names one. It is refused if it has no encoding, names a second byte that does not
exist, or names one beside an operand that needs a REX byte. -/
structure HighBytesSound (i : Instr) : Prop where
  exist : ∀ before after code, encode (before ++ .instr i :: after) = .ok code →
    ∀ r, i.NamesHigh r → r.HasHighByte
  bare : ∀ before after code, encode (before ++ .instr i :: after) = .ok code →
    ∀ r, i.NamesHigh r → (readHeader {} (code.drop (codeSize before))).1.rex = none
  refused : ∀ before after, (∀ j, .instr j ∈ before → j.Encodable) → ∀ r, i.NamesHigh r →
    (i.Encodable ∧ r.HasHighByte ∧ ∀ operand ∈ i.operands.operands, ¬ operand.AsksRex) ∨
      ∃ cause, encode (before ++ .instr i :: after) = .error ⟨i.opcode, cause⟩

end Instr

namespace Encoding

/-- What the code of an instruction says about a second byte that it names. -/
structure Named (i : Instr) (code : Piece) (r : RegOperand) : Prop where
  byte : r.HasHighByte
  free : ∀ operand ∈ i.operands.operands, ¬ operand.AsksRex
  straight : code.target = none
  bare : ∀ rest, (readHeader {} (code.bytes ++ rest)).1.rex = none

theorem Keeps.named {fields : Fields} {lead : Prefix} {opcode : Opcode} {slots : Slots Operand}
    (keeps : Keeps fields slots.operands) {r : RegOperand} (member : .reg r ∈ slots.operands) (high : r.high = true) :
    Named { lead, opcode, operands := slots } { bytes := { fields with lead := leadByte lead }.bytes } r := by
  obtain ⟨byte, without, free⟩ := keeps.high r member high
  exact ⟨byte, free, rfl, keeps.bare without lead⟩

theorem named_of_piece {i : Instr} {code : Piece} (written : piece i = .ok code) (proper : ¬ i.StacksHigh)
    {r : RegOperand} (named : i.NamesHigh r) : Named i code r := by
  have filled := filled_of_piece written
  obtain ⟨lead, opcode, operands⟩ := i
  obtain ⟨member, high⟩ := named
  obtain nullary | unary | binary := arity_cases opcode
  · simp only [nullary] at filled
    obtain rfl := filled_zero filled
    cases member
  · simp only [unary] at filled
    obtain ⟨operand, rfl⟩ := filled_one filled
    obtain rfl : operand = .reg r := by simpa [Slots.operands, Slots.toList, eq_comm] using member
    have straight := straight_of_piece (by simp [Slots.operands, Slots.toList]) written
    simp only [piece, unary, filled, straight] at written
    obtain ⟨fields, encoded, done⟩ := ok_of_bind written
    cases done
    refine (keeps_oneOperand encoded ?_).named member high
    rintro meant s same full
    cases same
    exact absurd ⟨meant, r, rfl, full, high⟩ proper
  · simp only [binary] at filled
    obtain ⟨dst, src, rfl⟩ := filled_two filled
    have straight : branchOpcode opcode = none := by
      cases opcode with
      | jmp => cases binary
      | jnz => cases binary
      | _ => rfl
    simp only [piece, binary, filled, straight] at written
    obtain ⟨fields, encoded, done⟩ := ok_of_bind written
    cases done
    exact (keeps_twoOperands encoded).named member high

end Encoding

/-! ### Listings -/

theorem piece_of_listing {before after : List Node} {i : Instr} {code : List Byte}
    (encoded : encode (before ++ .instr i :: after) = .ok code) : ∃ written, piece i = .ok written :=
  (laid_of_encode encoded).2.encodable i (by simp)

/-- The bytes of an instruction that is no branch stand in the code of a listing as they are. -/
theorem drop_code {before after : List Node} {i : Instr} {code : List Byte} {written : Piece}
    (encoded : encode (before ++ .instr i :: after) = .ok code) (ok : piece i = .ok written)
    (straight : written.target = none) : ∃ rest, code.drop (codeSize before) = written.bytes ++ rest := by
  obtain ⟨front, bytes, back, rfl, size, linked⟩ := (laid_of_encode encoded).1.code_at rfl
  rw [List.drop_left' size]
  cases linked with
  | straight encodable noBranch =>
    refine ⟨back, ?_⟩
    rw [alone_of_piece ok, straight]
    simp
  | @branch _ l _ _ _ _ encodable branches =>
    rw [(target_of_piece ok).mpr branches] at straight
    cases straight

theorem highBytesSound_of_proper {i : Instr} (proper : ¬ i.StacksHigh) : i.HighBytesSound where
  exist before after code encoded r named := by
    obtain ⟨written, ok⟩ := piece_of_listing encoded
    exact (named_of_piece ok proper named).byte
  bare before after code encoded r named := by
    obtain ⟨written, ok⟩ := piece_of_listing encoded
    have found := named_of_piece ok proper named
    obtain ⟨rest, same⟩ := drop_code encoded ok found.straight
    rw [same]
    exact found.bare rest
  refused before after encodable r named := by
    cases ok : piece i with
    | ok written =>
      have found := named_of_piece ok proper named
      exact .inl ⟨⟨written, ok⟩, found.byte, found.free⟩
    | error cause =>
      refine .inr ⟨cause, ?_⟩
      rw [encode, items_of_error encodable ok]
      rfl

theorem encode_of_stacksHigh {i : Instr} (meant : i.StacksHigh) : ∃ code, encode [.instr i] = .ok code := by
  obtain ⟨lead, opcode, operands⟩ := i
  obtain ⟨name, r, rfl, full, -⟩ := meant
  obtain rfl | rfl := name <;>
    simp [encode, items, item, piece, arity, Slots.filled, Slots.toList, branchOpcode, oneOperand, stack, full, link,
      pieceBytes, bind, Except.bind, pure, Except.pure]

/-- Second bytes are treated as they should be exactly in the instructions that do not push or pop a 64-bit register of
which the second byte is meant. -/
theorem highBytesSound_iff (i : Instr) : i.HighBytesSound ↔ ¬ i.StacksHigh := by
  refine ⟨fun sound meant => ?_, highBytesSound_of_proper⟩
  obtain ⟨code, encoded⟩ := encode_of_stacksHigh meant
  obtain ⟨-, r, operands, full, high⟩ := meant
  have named : i.NamesHigh r := ⟨by simp [operands, Slots.operands, Slots.toList], high⟩
  have byte : r.width = .b8 := (sound.exist [] [] code encoded r named).1
  rw [full] at byte
  cases byte

/-- A push of a 64-bit `rax` of which the second byte is meant. -/
def sampleStacked : Instr := .one .push (.reg ⟨.rax, .b64, true⟩)

theorem push_ignores_high : encode [.instr sampleStacked] = .ok [0x50] ∧ ¬ sampleStacked.HighBytesSound := by
  have encoded : encode [.instr sampleStacked] = .ok [0x50] := by rfl
  refine ⟨encoded, fun sound => ?_⟩
  have named : sampleStacked.NamesHigh ⟨.rax, .b64, true⟩ := ⟨by decide, rfl⟩
  have byte : Width.b64 = .b8 := (sound.exist [] [] _ encoded _ named).1
  cases byte

end Rehost.Host
