import Rehost.Host.Encoding.Layout
import Rehost.Proofs.Opcodes

/-!
# Decoding what was encoded

Every instruction that can be encoded and has no label is read back from its bytes in normal form, whatever
follows them, and its encoding has between one and fifteen bytes (`decode_encode`). The operations are taken
one by one along the encoder, each by the family of opcodes that it is encoded with.
-/

namespace Rehost

open Host

namespace Host.Encoding

/-! ### Normal operands -/

/-- An operation with two operands that are normal if each of them is, in this order. -/
structure Ordinary (operation : Operation) : Prop where
  noAddress : operation.action ≠ .address
  noSwap : operation.action ≠ .swap
  noShift : ∀ f, operation.action ≠ .shift f
  noTest : operation ≠ .test

theorem ordinary_move : Ordinary .mov := by
  constructor <;> simp [Operation.action]

theorem ordinary_arithmetic {operation : Operation} {digit : BitVec 3}
    (named : arithmeticDigit operation = some digit) : Ordinary operation := by
  cases operation with
  | add | or | adc | sbb | and | sub | xor | cmp => constructor <;> simp [Operation.action]
  | _ => cases named

theorem normalPair_reg (operation : Operation) (dst : Operand) (r : RegOperand) :
    normalPair operation dst (.reg r) = (dst.normal, .reg r) := by
  unfold normalPair
  split <;> simp_all [Operand.normal]

theorem normalPair_mem {operation : Operation} (ordinary : Ordinary operation) (r : RegOperand) (m : Mem) :
    normalPair operation (.reg r) (.mem m) = (.reg r, .mem m.normal) := by
  unfold normalPair
  cases action : operation.action with
  | address => exact absurd action ordinary.noAddress
  | swap => exact absurd action ordinary.noSwap
  | _ => exact if_neg ordinary.noTest

theorem normalPair_imm {operation : Operation} {dst : Operand} {w : Width} (noShift : ∀ f, operation.action ≠ .shift f)
    (width : dst.width? = some w) (value : Word) (declared : Width) :
    normalPair operation dst (.imm value declared) = (dst.normal, .extended value w) := by
  unfold normalPair
  cases action : operation.action with
  | shift f => exact absurd action (noShift f)
  | _ => simp only [width, Option.getD_some]

/-! ### Operands of one width -/

/-- A memory operand beside a register of its width. -/
theorem shown_mem {m : Mem} {w : Width} (same : w = m.width) : (Rm.mem m).shown w = .mem m.normal := by
  subst same
  have found : Rm.ofOperand? (.mem m) = some (.mem m) := rfl
  exact Rm.shown_width found

section
variable {opcode : Byte} {operation : Operation} {dst : Operand} {rm : Rm} {r : RegOperand} {m : Mem} {fields : Fields}

theorem faithful_fromReg (family : Family opcode fun header w => header.rmReg w operation)
    (found : Rm.ofOperand? dst = some rm)
    (written : checkWidths rm.width r.width >>= (fun _ => withRm (some r.width) (sized opcode r.width) (.reg r) rm []) =
      .ok fields) (lead : Prefix) :
    Faithful (fields.after lead) (Instr.pair lead operation dst (.reg r)).normal := by
  obtain ⟨_, checked, written⟩ := ok_of_bind written
  have same := widths_of_check checked
  have faithful := faithful_rmReg family written (same ▸ rm.takes_width) lead
  rw [← same, Rm.shown_width found] at faithful
  simpa only [Instr.normal, Instr.pair, normalPair_reg] using faithful

theorem faithful_fromMem (family : Family opcode fun header w => header.regRm w operation)
    (ordinary : Ordinary operation) (found : Rm.ofOperand? dst = some (.reg r))
    (written : checkWidths r.width m.width >>=
      (fun _ => withRm (some r.width) (sized opcode r.width) (.reg r) (.mem m) []) = .ok fields) (lead : Prefix) :
    Faithful (fields.after lead) (Instr.pair lead operation dst (.mem m)).normal := by
  obtain ⟨_, checked, written⟩ := ok_of_bind written
  obtain rfl := reg_of_rm found
  have faithful := faithful_regRm family written trivial lead
  rw [shown_mem (widths_of_check checked)] at faithful
  simpa only [Instr.normal, Instr.pair, normalPair_mem ordinary] using faithful

/-- Where a register and memory are treated alike, memory comes first. -/
theorem faithful_swapped (family : Family opcode fun header w => header.rmReg w operation)
    (alike : operation = .test ∨ operation = .xchg) (found : Rm.ofOperand? dst = some (.reg r))
    (written : checkWidths r.width m.width >>=
      (fun _ => withRm (some r.width) (sized opcode r.width) (.reg r) (.mem m) []) = .ok fields) (lead : Prefix) :
    Faithful (fields.after lead) (Instr.pair lead operation dst (.mem m)).normal := by
  obtain ⟨_, checked, written⟩ := ok_of_bind written
  obtain rfl := reg_of_rm found
  have faithful := faithful_rmReg family written trivial lead
  rw [shown_mem (widths_of_check checked)] at faithful
  obtain rfl | rfl := alike <;> exact faithful

end

/-! ### Operations -/

theorem arithmeticOf_digit {operation : Operation} {digit : BitVec 3} (named : arithmeticDigit operation = some digit) :
    arithmeticOf digit = operation := by
  cases operation <;> cases named <;> rfl

theorem faithful_arithmetic {operation : Operation} {digit : BitVec 3} {dst src : Operand} {fields : Fields}
    (named : arithmeticDigit operation = some digit) (written : arithmetic digit dst src = .ok fields) (lead : Prefix) :
    Faithful (fields.after lead) (Instr.pair lead operation dst src).normal := by
  have ordinary := ordinary_arithmetic named
  obtain rfl := arithmeticOf_digit named
  simp only [arithmetic] at written
  split at written
  next found => exact faithful_fromReg (family_arithmetic digit) found written lead
  next found => exact faithful_fromMem (family_arithmetic_reversed digit) ordinary found written lead
  next rm value declared found =>
    obtain ⟨_, checked, written⟩ := ok_of_bind written
    simp only [Instr.normal, Instr.pair, normalPair_imm ordinary.noShift (width?_of_rm found)]
    rw [← Rm.shown_width found]
    by_cases short : rm.width ≠ .b8 ∧ isSigned 8 value = true
    · rw [if_neg short.1, if_pos short.2] at written
      apply faithful_of_withRm written (by decide) (by simp)
      rintro header code operand back rfl rest
      have wide : header.width 0x83 = rm.width := back.wide _ rfl short.1
      have dispatch (bytes : List Byte) : header.instruction 0x83 bytes =
          header.rmImm (header.width 0x83) 1 (fun digit => some (arithmeticOf digit)) bytes := rfl
      rw [dispatch, wide]
      apply rmImm_eq back rm.takes_width _ rfl
      rw [signExtend_setWidth_of_byte short.2]
      exact signExtend_setWidth_of_isSigned short.2
    · have long : withRm (some rm.width) (sized 0x80 rm.width) (.digit digit) rm (immediateBytes value rm.width) =
          .ok fields := by
        by_cases byte : rm.width = .b8
        · rw [if_pos byte] at written
          rw [byte] at written ⊢
          exact written
        · rw [if_neg byte, if_neg (fun signed => short ⟨byte, signed⟩)] at written
          rw [sized, if_neg byte]
          exact written
      exact faithful_rmImm rm family_arithmetic_immediate long checked rfl lead
  next => cases written

theorem faithful_test {dst src : Operand} {fields : Fields} (written : test dst src = .ok fields) (lead : Prefix) :
    Faithful (fields.after lead) (Instr.pair lead .test dst src).normal := by
  simp only [test] at written
  split at written
  next found => exact faithful_fromReg family_test found written lead
  next found => exact faithful_swapped family_test (.inl rfl) found written lead
  next rm value declared found =>
    obtain ⟨_, checked, written⟩ := ok_of_bind written
    have noShift : ∀ f, Operation.test.action ≠ .shift f := by simp [Operation.action]
    simp only [Instr.normal, Instr.pair, normalPair_imm noShift (width?_of_rm found)]
    rw [← Rm.shown_width found]
    apply faithful_of_withRm written (family_negation.opens _) (length_immediateBytes ..)
    rintro header code operand back rfl rest
    rw [family_negation.dispatch, back.width family_negation.even, Header.negation, immediateBytes]
    simp only [back.rm _ rm.takes_width, back.digit 0 rfl, Option.bind_eq_bind, Option.bind_some]
    exact rmImm_eq back rm.takes_width (extend_immediate checked) rfl rest
  next => cases written

theorem faithful_exchange {dst src : Operand} {fields : Fields} (written : exchange dst src = .ok fields)
    (lead : Prefix) :
    Faithful (fields.after lead) (Instr.pair lead .xchg dst src).normal := by
  simp only [exchange] at written
  split at written
  next found => exact faithful_fromReg family_exchange found written lead
  next found => exact faithful_swapped family_exchange (.inr rfl) found written lead
  next => cases written

section
variable {r : RegOperand} {value : Word} {fields : Fields}

theorem faithful_moveByte (written : withReg 0b10110#5 r (toBytes value r.width.bytes) = .ok fields)
    (byte : r.width = .b8) (lead : Prefix) :
    Faithful (fields.after lead) (.pair lead .mov (.reg r) (.extended value r.width)) := by
  apply faithful_of_withReg written (by decide) (by rw [byte]; simp [Width.bytes])
  rintro header code - named rfl rest
  refine (instruction_named (by decide) ..).trans ?_
  refine Eq.trans ?_ (moveImmediate_eq named 0b10110#5 value rest)
  rw [byte]
  rfl

theorem faithful_moveWide (written : withReg 0b10111#5 r (toBytes value r.width.bytes) = .ok fields)
    (wider : r.width ≠ .b8) (lead : Prefix) :
    Faithful (fields.after lead) (.pair lead .mov (.reg r) (.extended value r.width)) := by
  apply faithful_of_withReg written (by decide) (by simp only [length_toBytes]; cases r.width <;> decide)
  rintro header code wide named rfl rest
  refine (instruction_named (by decide) ..).trans ?_
  refine Eq.trans ?_ (moveImmediate_eq named 0b10111#5 value rest)
  rw [wide wider]
  rfl

/-- An immediate that is moved into a register. -/
theorem faithful_moveRegister {declared : Width} (written : move (.reg r) (.imm value declared) = .ok fields)
    (lead : Prefix) :
    Faithful (fields.after lead) (.pair lead .mov (.reg r) (.extended value r.width)) := by
  simp only [move, Rm.ofOperand?] at written
  split at written
  next full =>
    apply faithful_moveWide _ (by simp [full.1])
    rw [full.1]
    exact written
  next =>
    obtain ⟨_, checked, written⟩ := ok_of_bind written
    have plain (short : min r.width.bytes 4 = r.width.bytes) :
        immediateBytes value r.width = toBytes value r.width.bytes := by rw [immediateBytes, short]
    split at written
    next long =>
      have large : withRm (some r.width) (sized 0xc6 r.width) (.digit 0) (.reg r) (immediateBytes value r.width) =
          .ok fields := by rw [long] at written ⊢; exact written
      exact faithful_rmImm (.reg r) family_move_immediate large checked rfl lead
    next byte =>
      rw [plain (by rw [byte]; rfl)] at written
      exact faithful_moveByte written byte lead
    next notLong notByte =>
      rw [plain (by cases width : r.width <;> simp_all [Width.bytes])] at written
      exact faithful_moveWide written notByte lead

end

theorem faithful_move {dst src : Operand} {fields : Fields} (written : move dst src = .ok fields) (lead : Prefix) :
    Faithful (fields.after lead) (Instr.pair lead .mov dst src).normal := by
  have whole := written
  simp only [move] at written
  split at written
  next found => exact faithful_fromReg family_store found written lead
  next found => exact faithful_fromMem family_load ordinary_move found written lead
  next r value declared found =>
    obtain rfl := reg_of_rm found
    simp only [Instr.normal, Instr.pair, normalPair_imm ordinary_move.noShift (width?_of_rm found)]
    exact faithful_moveRegister whole lead
  next m value declared found =>
    obtain ⟨_, checked, written⟩ := ok_of_bind written
    simp only [Instr.normal, Instr.pair, normalPair_imm ordinary_move.noShift (width?_of_rm found)]
    rw [← Rm.shown_width found]
    exact faithful_rmImm (.mem m) family_move_immediate written checked rfl lead
  next => cases written

theorem faithful_loadAddress {dst src : Operand} {fields : Fields} (written : loadAddress dst src = .ok fields)
    (lead : Prefix) :
    Faithful (fields.after lead) (Instr.pair lead .lea dst src).normal := by
  unfold loadAddress at written
  split at written
  next r m =>
    split at written
    · cases written
    next wider =>
      apply faithful_of_withRm written (by decide) (by simp)
      rintro header code operand back rfl rest
      have wide : header.width 0x8d = r.width := back.wide _ rfl wider
      have dispatch (bytes : List Byte) : header.instruction 0x8d bytes =
          header.regAddress (header.width 0x8d) .lea bytes := rfl
      have memory : (Rm.mem m).Takes r.width := trivial
      rw [dispatch, wide]
      simp only [Header.regAddress, back.rm _ memory, back.register r rfl, Rm.shown, Header.two, Option.bind_eq_bind,
        Option.bind_some, List.nil_append]
      rfl
  next => cases written

theorem normal_single {operand : Operand} {rm : Rm} (found : Rm.ofOperand? operand = some rm) (lead : Prefix)
    (operation : Operation) :
    Instr.normal { lead, opcode := .op operation, operands := { first := some operand } } =
      { lead, opcode := .op operation, operands := { first := some (rm.shown rm.width) } } := by
  rw [Rm.shown_width found]
  rfl

theorem faithful_negation {operation : Operation} {digit : BitVec 3} {operand : Operand} {fields : Fields}
    (named : digit = 2 ∧ operation = .not ∨ digit = 3 ∧ operation = .neg)
    (written : unary 0xf6 digit operand = .ok fields) (lead : Prefix) :
    Faithful (fields.after lead)
      (Instr.normal { lead, opcode := .op operation, operands := { first := some operand } }) := by
  unfold unary at written
  split at written
  next rm found =>
    rw [normal_single found]
    apply faithful_of_withRm written (family_negation.opens _) (by simp)
    rintro header code operand back rfl rest
    rw [family_negation.dispatch, back.width family_negation.even, Header.negation]
    simp only [back.rm _ rm.takes_width, back.digit digit rfl, Option.bind_eq_bind, Option.bind_some]
    obtain ⟨rfl, rfl⟩ | ⟨rfl, rfl⟩ := named <;> rfl
  next => cases written

theorem faithful_count {operation : Operation} {digit : BitVec 3} {operand : Operand} {fields : Fields}
    (named : digit = 0 ∧ operation = .inc ∨ digit = 1 ∧ operation = .dec)
    (written : unary 0xfe digit operand = .ok fields) (lead : Prefix) :
    Faithful (fields.after lead)
      (Instr.normal { lead, opcode := .op operation, operands := { first := some operand } }) := by
  unfold unary at written
  split at written
  next rm found =>
    have chosen : (countOf? digit).map Opcode.op = some (.op operation) := by
      obtain ⟨rfl, rfl⟩ | ⟨rfl, rfl⟩ := named <;> rfl
    rw [normal_single found]
    apply faithful_of_withRm written (by cases rm.width <;> decide) (by simp)
    rintro header code operand back rfl rest
    by_cases byte : rm.width = .b8
    · have dispatch (bytes : List Byte) : header.instruction 0xfe bytes =
          header.rmOnly .b8 (fun digit => (countOf? digit).map .op) bytes := rfl
      rw [sized, if_pos byte, dispatch, ← byte]
      exact rmOnly_eq back rm.takes_width chosen rest
    · have dispatch (bytes : List Byte) : header.instruction 0xff bytes = header.group bytes := rfl
      have wide : header.wide = rm.width := back.wide _ rfl byte
      obtain ⟨shape, peeked⟩ := readRm_width (back.rm _ rm.takes_width rest) .b64
      have counts : header.group (operand ++ rest) =
          header.rmOnly header.wide (fun digit => (countOf? digit).map .op) (operand ++ rest) := by
        simp only [Header.group, peeked, back.digit digit rfl, Option.bind_eq_bind, Option.bind_some]
        obtain ⟨rfl, -⟩ | ⟨rfl, -⟩ := named <;> rfl
      have odd : sized 0xfe rm.width = 0xff := by rw [sized, if_neg byte]; rfl
      rw [odd, dispatch, List.nil_append, counts, wide]
      exact rmOnly_eq back rm.takes_width chosen rest
  next => cases written

theorem shiftOf?_digit {operation : Operation} {digit : BitVec 3} (named : shiftDigit operation = some digit) :
    shiftOf? digit = some operation := by
  cases operation <;> cases named <;> rfl

theorem normalPair_count {operation : Operation} {digit : BitVec 3} (named : shiftDigit operation = some digit)
    (dst : Operand) (value : Word) (declared : Width) :
    normalPair operation dst (.imm value declared) = (dst.normal, .imm value .b8) := by
  cases operation with
  | rol | ror | shl | shr | sar => rfl
  | _ => cases named

theorem faithful_shift {operation : Operation} {digit : BitVec 3} {dst count : Operand} {fields : Fields}
    (named : shiftDigit operation = some digit) (written : shift digit dst count = .ok fields) (lead : Prefix) :
    Faithful (fields.after lead) (Instr.pair lead operation dst count).normal := by
  unfold shift at written
  split at written
  · cases written
  next rm found =>
    split at written
    next value declared =>
      simp only [Instr.normal, Instr.pair, normalPair_count named]
      rw [← Rm.shown_width found]
      split at written
      next one =>
        subst one
        apply faithful_of_withRm written (family_count_one.opens _) (by simp)
        rintro header code operand back rfl rest
        rw [family_count_one.dispatch, back.width family_count_one.even]
        simp [Header.shiftBy, back.rm _ rm.takes_width, back.digit digit rfl, shiftOf?_digit named, Header.two]
      next =>
        split at written
        next small =>
          apply faithful_of_withRm written (family_count.opens _) (by simp)
          rintro header code operand back rfl rest
          have whole : (value.setWidth 8).setWidth 64 = value :=
            BitVec.eq_of_toNat_eq (by simp only [BitVec.toNat_setWidth]; omega)
          rw [family_count.dispatch, back.width family_count.even]
          simp [Header.shiftByByte, back.rm _ rm.takes_width, back.digit digit rfl, shiftOf?_digit named, Header.two,
            toBytes, whole]
        · cases written
    next r =>
      split at written
      next counter =>
        subst counter
        simp only [Instr.normal, Instr.pair, normalPair_reg]
        rw [← Rm.shown_width found]
        apply faithful_of_withRm written (family_count_register.opens _) (by simp)
        rintro header code operand back rfl rest
        rw [family_count_register.dispatch, back.width family_count_register.even]
        simp [Header.shiftBy, back.rm _ rm.takes_width, back.digit digit rfl, shiftOf?_digit named, Header.two]
      · cases written
    · cases written

/-! ### Instructions of 64 bits -/

section
variable {header : Header} {digit code : BitVec 3} {rm : Rm} {operand : List Byte} {name : Opcode}

theorem long_rmOnly (back : ReadBack header none (.digit digit) rm code operand) (full : rm.width = .b64)
    {choose : BitVec 3 → Option Opcode} (chosen : choose digit = some name) (rest : List Byte) :
    header.long (header.rmOnly .b64 choose (operand ++ rest)) =
      some ({ lead := header.lead, opcode := name, operands := { first := rm.shown rm.width } }, rest) := by
  have short : ¬header.operandOverride = true := by simp [back.long rfl]
  rw [Header.long, if_neg short, ← full]
  exact rmOnly_eq back rm.takes_width chosen rest

/-- Opcode `ff` with a digit that is not for counting. -/
theorem read_group (named : digit = 2 ∧ name = .call ∨ digit = 6 ∧ name = .push) (full : rm.width = .b64)
    (back : ReadBack header none (.digit digit) rm code operand) (rest : List Byte) :
    header.instruction 0xff (operand ++ rest) =
      some ({ lead := header.lead, opcode := name, operands := { first := rm.shown rm.width } }, rest) := by
  have takes : rm.Takes .b64 := full ▸ rm.takes_width
  have dispatch (bytes : List Byte) : header.instruction 0xff bytes = header.group bytes := rfl
  have chosen : header.group (operand ++ rest) =
      header.long (header.rmOnly .b64 (fun _ => some name) (operand ++ rest)) := by
    simp only [Header.group, back.rm _ takes, back.digit digit rfl, Option.bind_eq_bind, Option.bind_some]
    obtain ⟨rfl, rfl⟩ | ⟨rfl, rfl⟩ := named <;> rfl
  rw [dispatch, chosen]
  exact long_rmOnly back full rfl rest

end

theorem faithful_call {operand : Operand} {fields : Fields} (written : call operand = .ok fields) (lead : Prefix) :
    Faithful (fields.after lead) (Instr.normal { lead, opcode := .call, operands := { first := some operand } }) := by
  unfold call at written
  split at written
  next r =>
    split at written
    next full =>
      apply faithful_of_withRm written (by decide) (by simp)
      rintro header code operand back rfl rest
      have target : (Rm.reg r).width = .b64 := full
      exact read_group (.inl ⟨rfl, rfl⟩) target back rest
    next => cases written
  next => cases written

/-- Both encodings of a stack instruction, by its register and by ModRM, are read as it. -/
structure StackCode (inOpcode : BitVec 5) (opcode : Byte) (digit : BitVec 3) (name : Opcode) : Prop where
  opens : ∀ code : BitVec 3, IsOpcode (inOpcode ++ code)
  register : ∀ (header : Header) (code : BitVec 3) bytes, header.instruction (inOpcode ++ code) bytes =
    header.long (header.one name (.full (registerOf header.extension.b code)) bytes)
  opensRm : IsOpcode opcode
  memory : ∀ {header code operand m}, m.width = .b64 → ReadBack header none (.digit digit) (.mem m) code operand →
    ∀ rest, header.instruction opcode (operand ++ rest) =
      some ({ lead := header.lead, opcode := name, operands := { first := (Rm.mem m).shown m.width } }, rest)

theorem stackCode_push : StackCode 0b01010 0xff 6 .push :=
  ⟨by decide, fun header code bytes => (instruction_named (by decide) header code bytes).trans rfl, by decide,
    fun full => read_group (.inr ⟨rfl, rfl⟩) full⟩

theorem stackCode_pop : StackCode 0b01011 0x8f 0 .pop :=
  ⟨by decide, fun header code bytes => (instruction_named (by decide) header code bytes).trans rfl, by decide,
    fun full back rest => long_rmOnly back full rfl rest⟩

theorem faithful_stack {inOpcode : BitVec 5} {opcode : Byte} {digit : BitVec 3} {name : Opcode} {operand : Operand}
    {fields : Fields} (codes : StackCode inOpcode opcode digit name)
    (written : stack inOpcode opcode digit operand = .ok fields)
    (low : ∀ r, operand = .reg r → r.high = true → r.width = .b8) (lead : Prefix) :
    Faithful (fields.after lead) { lead, opcode := name, operands := { first := some operand.normal } } := by
  unfold stack at written
  split at written
  next r =>
    split at written
    next full =>
      obtain ⟨reg, width, high⟩ := r
      obtain rfl : width = .b64 := full
      obtain rfl : high = false := by
        cases high with
        | false => rfl
        | true => cases low _ rfl rfl
      cases written
      apply faithful_of_fields rfl (codes.opens _) (by simp)
      rintro rest
      rw [codes.register]
      have named : registerOf reg.extended reg.low = reg := registerOf_low reg
      cases extended : reg.extended <;> rw [extended] at named <;>
        simp [Header.long, Fields.header, Header.extension, Header.one, named, Operand.full, Operand.normal]
    next => cases written
  next m =>
    split at written
    next full =>
      apply faithful_of_withRm written codes.opensRm (by simp)
      rintro header code operand back rfl rest
      refine (codes.memory full back rest).trans ?_
      rw [shown_mem rfl]
      rfl
    next => cases written
  next => cases written

/-! ### Pieces -/

theorem faithful_noOperand {opcode : Opcode} (nullary : arity opcode = 0) (lead : Prefix) :
    Faithful ((leadByte lead).toList ++ noOperand opcode) { lead, opcode } := by
  have bare {code : Byte} (opens : IsOpcode code)
      (read : ∀ bytes, ({ lead } : Header).instruction code bytes = some ({ lead, opcode }, bytes)) :
      Faithful ((leadByte lead).toList ++ [code]) { lead, opcode } := by
    let fields : Fields := { opcode := [code] }
    have faithful : Faithful (fields.after lead) { lead, opcode } :=
      faithful_of_fields rfl opens (by simp [fields]) read
    simpa [Fields.after, Fields.bytes, fields] using faithful
  cases opcode with
  | op operation =>
    cases operation with
    | nop => exact bare (by decide) (fun _ => rfl)
    | _ => cases nullary
  | pushfq | popfq | ret => exact bare (by decide) (fun _ => rfl)
  | push | pop | call | jmp | jnz => cases nullary

theorem faithful_oneOperand {opcode : Opcode} {operand : Operand} {fields : Fields}
    (written : oneOperand opcode operand = .ok fields)
    (low : ∀ r, operand = .reg r → r.high = true → r.width = .b8) (lead : Prefix) :
    Faithful (fields.after lead) (Instr.normal { lead, opcode, operands := { first := some operand } }) := by
  unfold oneOperand at written
  split at written
  · exact faithful_negation (.inl ⟨rfl, rfl⟩) written lead
  · exact faithful_negation (.inr ⟨rfl, rfl⟩) written lead
  · exact faithful_count (.inl ⟨rfl, rfl⟩) written lead
  · exact faithful_count (.inr ⟨rfl, rfl⟩) written lead
  · exact faithful_stack stackCode_push written low lead
  · exact faithful_stack stackCode_pop written low lead
  · exact faithful_call written lead
  · cases written

theorem faithful_twoOperands {opcode : Opcode} {dst src : Operand} {fields : Fields}
    (written : twoOperands opcode dst src = .ok fields) (lead : Prefix) :
    Faithful (fields.after lead)
      (Instr.normal { lead, opcode, operands := { first := some dst, second := some src } }) := by
  unfold twoOperands at written
  split at written
  next operation =>
    split at written
    next named => exact faithful_arithmetic named written lead
    next named => exact faithful_shift named written lead
    next =>
      split at written
      · exact faithful_test written lead
      · exact faithful_move written lead
      · exact faithful_loadAddress written lead
      · exact faithful_exchange written lead
      · cases written
  next => cases written

/-- Only a branch to a label is a branch. -/
theorem straight_of_piece {i : Instr} {code : Piece} (labelFree : ∀ l, .label l ∉ i.operands.operands)
    (written : piece i = .ok code) : branchOpcode i.opcode = none := by
  have filled := filled_of_piece written
  cases branch : branchOpcode i.opcode with
  | none => rfl
  | some bytes =>
    simp only [piece, filled, branch] at written
    cases first : i.operands.first with
    | none => rw [first] at written; cases written
    | some operand =>
      rw [first] at written
      cases operand with
      | label l => exact absurd (by simp [Slots.operands, Slots.toList, first]) (labelFree l)
      | _ => cases written

/-- The code of an instruction that is no branch. -/
theorem faithful_of_piece {i : Instr} {code : Piece} (straight : branchOpcode i.opcode = none)
    (low : ∀ r, .reg r ∈ i.operands.operands → r.high = true → r.width = .b8) (written : piece i = .ok code) :
    code.target = none ∧ Faithful code.bytes i.normal := by
  have filled := filled_of_piece written
  simp only [piece, filled, straight] at written
  obtain ⟨lead, opcode, operands⟩ := i
  obtain nullary | unary | binary := arity_cases opcode
  · simp only [nullary] at filled
    obtain rfl := filled_zero filled
    cases written
    have bare : Instr.normal { lead, opcode } = { lead, opcode } := by cases opcode <;> rfl
    rw [bare]
    exact ⟨rfl, faithful_noOperand nullary lead⟩
  · simp only [unary] at filled
    obtain ⟨operand, rfl⟩ := filled_one filled
    obtain ⟨fields, encoded, done⟩ := ok_of_bind written
    cases done
    exact ⟨rfl, faithful_oneOperand encoded (fun r same => low r (by simp [Slots.operands, Slots.toList, same])) lead⟩
  · simp only [binary] at filled
    obtain ⟨dst, src, rfl⟩ := filled_two filled
    obtain ⟨fields, encoded, done⟩ := ok_of_bind written
    cases done
    exact ⟨rfl, faithful_twoOperands encoded lead⟩

theorem piece_of_encode {i : Instr} {bytes : List Byte} (encoded : encode [.instr i] = .ok bytes) :
    ∃ code, piece i = .ok code ∧ (code.target = none → code.bytes = bytes) := by
  obtain ⟨items, itemised, linked⟩ := ok_of_bind encoded
  obtain ⟨first, found, itemised⟩ := ok_of_bind itemised
  cases itemised
  simp only [item] at found
  split at found
  next code written =>
    cases found
    refine ⟨code, written, fun noTarget => ?_⟩
    simp only [link, pieceBytes, noTarget] at linked
    cases linked
    simp
  next => cases found

end Host.Encoding

open Encoding in
/-- An instruction that can be encoded and has no label is read back in normal form from its one to fifteen bytes,
whatever follows them. Its normal form has only lost details that do not matter, and has its effect. -/
theorem decode_encode {i : Instr} (labelFree : ∀ l, .label l ∉ i.operands.operands)
    (high : ∀ r, .reg r ∈ i.operands.operands → r.high = true → r.width = .b8) {bytes : List Byte}
    (encoded : encode [.instr i] = .ok bytes) :
    (∀ suffix, decode? (bytes ++ suffix) = some (i.normal, suffix)) ∧ 1 ≤ bytes.length ∧ bytes.length ≤ 15 ∧
      Relation.ReflTransGen Instr.Forgets i i.normal ∧
      ∀ {σ : Type} (env : Machine.Env σ) (world s),
        Machine.step env i.normal world s = Machine.step env i world s := by
  obtain ⟨code, written, same⟩ := piece_of_encode encoded
  obtain ⟨noTarget, decodes, nonempty, short⟩ :=
    faithful_of_piece (straight_of_piece labelFree written) high written
  rw [same noTarget] at decodes nonempty short
  exact ⟨decodes, nonempty, short, Instr.forgets_normal written, fun _ => Machine.step_normal written⟩

/-- A locked exchange of `ah` with the byte at `rbp`. -/
def sampleHigh : Instr :=
  .pair .lock .xchg (.reg ⟨.rax, .b8, true⟩) (.mem { base := some .rbp, scale := 4, width := .b8 })

theorem decode_encode_sample : encode [.instr sampleHigh] = .ok [0xf0, 0x86, 0x65, 0x00] ∧
    ∀ suffix, decode? ([0xf0, 0x86, 0x65, 0x00] ++ suffix) =
      some (.pair .lock .xchg (.mem { base := some .rbp, width := .b8 }) (.reg ⟨.rax, .b8, true⟩), suffix) := by
  have encoded : encode [.instr sampleHigh] = .ok [0xf0, 0x86, 0x65, 0x00] := by rfl
  refine ⟨encoded, (decode_encode ?_ ?_ encoded).1⟩
  · simp [sampleHigh, Instr.pair, Slots.operands, Slots.toList]
  · simp [sampleHigh, Instr.pair, Slots.operands, Slots.toList]

end Rehost
