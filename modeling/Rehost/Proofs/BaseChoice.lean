import Rehost.Proofs.Footprint
import Rehost.Proofs.Status

/-!
# The register for the context pointer

A body enters its footprint as a set of instructions: neither order nor repetition matters, and a body of fewer
instructions has a smaller footprint (`Footprint.within_of_subset`). A smaller footprint leaves more registers for the
context pointer (`Footprint.candidate_mono`), of which the lowest is taken, a preserved one before others if there are
calls (`Footprint.chosen_of_base?`).
-/

namespace Rehost

open Host (Instr)

theorem Flag.Within.antisymm {one two : Word} (first : Flag.Within one two) (second : Flag.Within two one) :
    one = two := by
  apply BitVec.eq_of_getLsbD_eq
  intro k _
  rw [Bool.eq_iff_iff]
  exact ⟨first k, second k⟩

theorem RegSet.ext_mem {one two : RegSet} (same : ∀ r, r ∈ one ↔ r ∈ two) : one = two := by
  cases one with
  | mk one =>
    cases two with
    | mk two =>
      congr 1
      apply BitVec.eq_of_getLsbD_eq
      intro k inside
      rw [Bool.eq_iff_iff]
      exact same ⟨k, inside⟩

/-! ### The lowest register -/

/-- The register with the lowest number among those with a property. -/
structure Reg.Lowest (property : Reg → Prop) (r : Reg) : Prop where
  holds : property r
  least : ∀ s, property s → r.val ≤ s.val

theorem Reg.Lowest.mono {one two : Reg → Prop} {r : Reg} (lowest : Reg.Lowest one r) (same : ∀ s, one s ↔ two s) :
    Reg.Lowest two r :=
  ⟨(same r).mp lowest.holds, fun s holds => lowest.least s ((same s).mpr holds)⟩

theorem Reg.ascending_all : Reg.all.Pairwise fun r s => r.val < s.val := by decide

/-- A search through all registers ends at the lowest. -/
theorem Reg.lowest_of_find? {property : Reg → Bool} {r : Reg} (found : Reg.all.find? property = some r) :
    Reg.Lowest (property · = true) r := by
  obtain ⟨holds, before, after, split, without⟩ := List.find?_eq_some_iff_append.mp found
  refine ⟨holds, fun s satisfied => ?_⟩
  have ascending := Reg.ascending_all
  rw [split, List.pairwise_append] at ascending
  have member : s ∈ before ++ r :: after := split ▸ Reg.mem_all s
  rcases List.mem_append.mp member with earlier | here
  · have missing := without s earlier
    simp [satisfied] at missing
  · rcases List.mem_cons.mp here with rfl | later
    · exact Nat.le_refl _
    · exact Nat.le_of_lt (List.rel_of_pairwise_cons ascending.2.1 later)

namespace Footprint

/-! ### Smaller footprints -/

/-- One footprint lies in another, part by part. -/
structure Within (small large : Footprint) : Prop where
  flagsIn : Flag.Within small.flagsIn large.flagsIn
  flagsOut : Flag.Within small.flagsOut large.flagsOut
  read : ∀ r, r ∈ small.read → r ∈ large.read
  modified : ∀ r, r ∈ small.modified → r ∈ large.modified
  dirty : ∀ r, r ∈ small.dirty → r ∈ large.dirty
  touchesMemory : small.touchesMemory = true → large.touchesMemory = true
  highByte : small.highByte = true → large.highByte = true

theorem Within.antisymm {one two : Footprint} (first : Within one two) (second : Within two one) : one = two := by
  cases one with
  | mk =>
    cases two with
    | mk =>
      rw [Footprint.mk.injEq]
      exact ⟨first.flagsIn.antisymm second.flagsIn, first.flagsOut.antisymm second.flagsOut,
        RegSet.ext_mem fun r => ⟨first.read r, second.read r⟩,
        RegSet.ext_mem fun r => ⟨first.modified r, second.modified r⟩,
        RegSet.ext_mem fun r => ⟨first.dirty r, second.dirty r⟩,
        Bool.eq_iff_iff.mpr ⟨first.touchesMemory, second.touchesMemory⟩,
        Bool.eq_iff_iff.mpr ⟨first.highByte, second.highByte⟩⟩

/-- What is seen of a body is seen of every body with its instructions. -/
theorem ofBody_mono (view : Footprint → Prop)
    (splits : ∀ one two : Footprint, view (one.union two) ↔ view one ∨ view two) {one two : List Instr}
    (part : ∀ i ∈ one, i ∈ two) (seen : view (ofBody one)) : view (ofBody two) := by
  rw [ofBody_iff view splits] at seen ⊢
  obtain empty | ⟨i, member, brings⟩ := seen
  · exact .inl empty
  · exact .inr ⟨i, part i member, brings⟩

theorem within_of_subset {one two : List Instr} (part : ∀ i ∈ one, i ∈ two) : Within (ofBody one) (ofBody two) where
  flagsIn k := ofBody_mono (·.flagsIn.getLsbD k = true) (fun _ _ => by simp [union]) part
  flagsOut k := ofBody_mono (·.flagsOut.getLsbD k = true) (fun _ _ => by simp [union]) part
  read r := ofBody_mono (r ∈ ·.read) (fun _ _ => RegSet.mem_union) part
  modified r := ofBody_mono (r ∈ ·.modified) (fun _ _ => RegSet.mem_union) part
  dirty r := ofBody_mono (r ∈ ·.dirty) (fun _ _ => RegSet.mem_union) part
  touchesMemory := ofBody_mono (·.touchesMemory = true) (fun _ _ => by simp [union]) part
  highByte := ofBody_mono (·.highByte = true) (fun _ _ => by simp [union]) part

theorem ofBody_congr {one two : List Instr} (same : ∀ i, i ∈ one ↔ i ∈ two) : ofBody one = ofBody two :=
  (within_of_subset fun i => (same i).mp).antisymm (within_of_subset fun i => (same i).mpr)

/-- What may hold the context pointer beside a footprint may do so beside a smaller one. -/
theorem candidate_mono {small large : Footprint} (within : Within small large) {r : Reg}
    (candidate : large.candidate r = true) : small.candidate r = true := by
  simp only [Footprint.candidate, Bool.and_eq_true, Bool.not_eq_true', Bool.and_eq_false_iff] at candidate ⊢
  obtain ⟨⟨⟨clean, reserved⟩, result⟩, legacy⟩ := candidate
  have falls {a b : Bool} (upward : a = true → b = true) (off : b = false) : a = false := by
    cases a with
    | false => rfl
    | true => rw [upward rfl] at off; cases off
  refine ⟨⟨⟨falls (within.dirty r) clean, reserved⟩, ?_⟩, ?_⟩
  · exact result.imp_left (falls within.touchesMemory)
  · exact legacy.imp_left (Or.imp (falls within.touchesMemory) (falls within.highByte))

/-! ### Candidates -/

/-- Some instruction accesses memory. -/
def AccessesMemory (body : List Instr) : Prop :=
  ∃ i ∈ body, i.opcode.effects.accessesMemory = true ∧ ∃ m, .mem m ∈ i.operands.operands

/-- Some operand is the second byte of a register. -/
def NamesHighByte (body : List Instr) : Prop := ∃ i ∈ body, ∃ r, .reg r ∈ i.operands.operands ∧ r.high = true

theorem touchesMemory_iff {body : List Instr} : (ofBody body).touchesMemory = true ↔ AccessesMemory body := by
  constructor
  · intro touches
    have split := ofBody_iff (·.touchesMemory = true) (fun _ _ => by simp [union]) body
    obtain empty | ⟨i, member, none | ⟨operand, present, accesses⟩⟩ := split.mp touches
    · cases empty
    · cases none
    · cases operand with
      | mem m => exact ⟨i, member, accesses, m, present⟩
      | _ => cases accesses
  · rintro ⟨i, member, accesses, m, present⟩
    exact touchesMemory_of_mem member present accesses

theorem highByte_iff {body : List Instr} : (ofBody body).highByte = true ↔ NamesHighByte body := by
  have split := ofBody_iff (·.highByte = true) (fun _ _ => by simp [union]) body
  rw [split]
  constructor
  · rintro (empty | ⟨i, member, none | ⟨operand, present, high⟩⟩)
    · cases empty
    · cases none
    · cases operand with
      | reg r => exact ⟨i, member, r, present, high⟩
      | _ => cases high
  · rintro ⟨i, member, r, present, high⟩
    exact .inr ⟨i, member, .inr ⟨.reg r, present, high⟩⟩

/-- A register that may hold the context pointer beside a body: not one of the two reserved for the stack, nor one that
the body names; not `rax` if the body accesses memory, and one of the first eight if it also names a second byte. -/
structure Candidate (body : List Instr) (r : Reg) : Prop where
  notStack : r ≠ .rsp
  notFrame : r ≠ .rbp
  clean : r ∉ (ofBody body).dirty
  notResult : AccessesMemory body → r ≠ .rax
  legacy : AccessesMemory body → NamesHighByte body → r.val < 8

theorem mem_reserved {r : Reg} : Host.Convention.reserved.contains r = true ↔ r = .rsp ∨ r = .rbp := by
  revert r
  decide

theorem candidate_iff {body : List Instr} {r : Reg} :
    (ofBody body).candidate r = true ↔ Candidate body r := by
  have reserved : Host.Convention.reserved.contains r = false ↔ r ≠ .rsp ∧ r ≠ .rbp := by
    rw [← Bool.not_eq_true, mem_reserved, not_or]
  have clean : (ofBody body).dirty.contains r = false ↔ r ∉ (ofBody body).dirty := Bool.not_eq_true _ ▸ Iff.rfl
  have extended : r.extended = false ↔ r.val < 8 := by simp [Reg.extended]
  simp only [Footprint.candidate, Bool.and_eq_true, Bool.not_eq_true', Bool.and_eq_false_iff, decide_eq_false_iff_not,
    reserved, clean, extended, ← Bool.not_eq_true (ofBody body).touchesMemory,
    ← Bool.not_eq_true (ofBody body).highByte, touchesMemory_iff, highByte_iff]
  constructor
  · rintro ⟨⟨⟨unnamed, notStack, notFrame⟩, result⟩, legacy⟩
    exact ⟨notStack, notFrame, unnamed, fun accesses => result.resolve_left (absurd accesses),
      fun accesses high => (legacy.resolve_left fun neither => neither.elim (absurd accesses) (absurd high))⟩
  · intro candidate
    refine ⟨⟨⟨candidate.clean, candidate.notStack, candidate.notFrame⟩, ?_⟩, ?_⟩
    · exact (Classical.em _).symm.imp_right candidate.notResult
    · by_cases accesses : AccessesMemory body
      · by_cases high : NamesHighByte body
        · exact .inr (candidate.legacy accesses high)
        · exact .inl (.inr high)
      · exact .inl (.inl accesses)

/-! ### The choice -/

/-- A candidate that called functions preserve. -/
def Preserved (body : List Instr) (r : Reg) : Prop := Candidate body r ∧ r ∈ Host.Convention.calleeSaved

/-- The register to take: the lowest preserved candidate if the body accesses memory and there is one, otherwise the
lowest candidate. -/
structure Chosen (body : List Instr) (r : Reg) : Prop where
  preserved : AccessesMemory body → (∃ s, Preserved body s) → Reg.Lowest (Preserved body) r
  otherwise : ¬ (AccessesMemory body ∧ ∃ s, Preserved body s) → Reg.Lowest (Candidate body) r

theorem base?_eq (footprint : Footprint) :
    footprint.base? =
      ((if footprint.touchesMemory then
          Reg.all.find? fun r => footprint.candidate r && Host.Convention.calleeSaved.contains r
        else none) <|> Reg.all.find? footprint.candidate) := by
  simp [base?, List.find?_filter, List.head?_filter]

theorem base?_eq_none_iff {footprint : Footprint} :
    footprint.base? = none ↔ ∀ r, ¬ footprint.candidate r = true := by
  constructor
  · intro none r
    rw [base?_eq, Option.orElse_eq_orElse, Option.orElse_eq_or, Option.or_eq_none_iff] at none
    exact List.find?_eq_none.mp none.2 r (Reg.mem_all r)
  · intro nowhere
    cases found : footprint.base? with
    | none => rfl
    | some r => exact absurd (candidate_of_base? found) (nowhere r)

theorem chosen_of_base? {body : List Instr} {r : Reg} (found : (ofBody body).base? = some r) : Chosen body r := by
  have preserved (s : Reg) :
      ((ofBody body).candidate s && Host.Convention.calleeSaved.contains s) = true ↔ Preserved body s := by
    rw [Bool.and_eq_true, candidate_iff]
    exact Iff.rfl
  rw [base?_eq, Option.orElse_eq_orElse, Option.orElse_eq_or] at found
  obtain first | ⟨none, second⟩ := Option.or_eq_some_iff.mp found
  · -- A preserved candidate was found, so the body accesses memory.
    split at first
    next touches =>
      have lowest := (Reg.lowest_of_find? first).mono preserved
      exact ⟨fun _ _ => lowest, absurd ⟨touchesMemory_iff.mp touches, r, lowest.holds⟩⟩
    next => cases first
  · refine ⟨?_, fun _ => (Reg.lowest_of_find? second).mono fun _ => candidate_iff⟩
    rintro accesses ⟨s, holds⟩
    rw [if_pos (touchesMemory_iff.mpr accesses)] at none
    exact absurd ((preserved s).mpr holds) (List.find?_eq_none.mp none s (Reg.mem_all s))

end Footprint

namespace Usage

open Footprint (Candidate Chosen)

theorem ofBody_of_base? {body : List Instr} {r : Reg} (found : (Footprint.ofBody body).base? = some r) :
    ofBody body = .ok { Footprint.ofBody body with base := r } := by
  simp [ofBody, found]

theorem ofBody_of_none {body : List Instr} (none : (Footprint.ofBody body).base? = none) :
    ofBody body = .error .registersExhausted := by
  simp [ofBody, none]

theorem base?_of_ofBody {body : List Instr} {usage : Usage} (ok : ofBody body = .ok usage) :
    usage.toFootprint = Footprint.ofBody body ∧ (Footprint.ofBody body).base? = some usage.base := by
  cases found : (Footprint.ofBody body).base? with
  | none => rw [ofBody_of_none found] at ok; cases ok
  | some r =>
    rw [ofBody_of_base? found] at ok
    cases ok
    exact ⟨rfl, rfl⟩

/-- A body of instructions of another has a usage if that one has. -/
theorem ofBody_of_subset {one two : List Instr} (part : ∀ i ∈ one, i ∈ two) {large : Usage}
    (ok : ofBody two = .ok large) :
    ∃ small, ofBody one = .ok small ∧ small.toFootprint.Within large.toFootprint := by
  obtain ⟨footprint, found⟩ := base?_of_ofBody ok
  have within := Footprint.within_of_subset part
  cases choice : (Footprint.ofBody one).base? with
  | none =>
    have still := Footprint.candidate_mono within (Footprint.candidate_of_base? found)
    exact absurd still (Footprint.base?_eq_none_iff.mp choice large.base)
  | some r => exact ⟨_, ofBody_of_base? choice, footprint ▸ within⟩

theorem ofBody_eq_exhausted_iff {body : List Instr} :
    ofBody body = .error .registersExhausted ↔ ¬ ∃ r, Candidate body r := by
  rw [not_exists]
  constructor
  · intro exhausted r candidate
    cases choice : (Footprint.ofBody body).base? with
    | none => exact Footprint.base?_eq_none_iff.mp choice r (Footprint.candidate_iff.mpr candidate)
    | some s => rw [ofBody_of_base? choice] at exhausted; cases exhausted
  · intro nowhere
    apply ofBody_of_none
    exact Footprint.base?_eq_none_iff.mpr fun r candidate => nowhere r (Footprint.candidate_iff.mp candidate)

/-- The usage of a body depends on which instructions occur in it only; fewer instructions have a usage if more have
one, and a smaller one; and the base is the best candidate, which is missing exactly if there is none. -/
theorem ofBody_determined_by_members (one two : List Instr) :
    ((∀ i, i ∈ one ↔ i ∈ two) → ofBody one = ofBody two) ∧
    ((∀ i ∈ one, i ∈ two) → ∀ large, ofBody two = .ok large →
      ∃ small, ofBody one = .ok small ∧ small.toFootprint.Within large.toFootprint) ∧
    (ofBody one = .error .registersExhausted ↔ ¬ ∃ r, Candidate one r) ∧
    ((∃ r, Candidate one r) →
      ∃ usage, ofBody one = .ok usage ∧ usage.toFootprint = Footprint.ofBody one ∧ Chosen one usage.base) := by
  refine ⟨fun same => ?_, fun part large ok => ofBody_of_subset part ok, ofBody_eq_exhausted_iff, fun some => ?_⟩
  · simp only [ofBody, Footprint.ofBody_congr same]
  · cases choice : (Footprint.ofBody one).base? with
    | none => exact absurd some (ofBody_eq_exhausted_iff.mp (ofBody_of_none choice))
    | some r => exact ⟨_, ofBody_of_base? choice, rfl, Footprint.chosen_of_base? choice⟩

/-- Takes the second byte of `rbx` from memory. -/
def sampleLoad : Instr := .two (.op .mov) (.reg ⟨.rbx, .b8, true⟩) (.mem { base := some .rsi, width := .b8 })

/-- Computes an address, which accesses no memory. -/
def sampleAddress : Instr := .two (.op .lea) (.full .rdi) (.mem { base := some .rcx, width := .b64 })

/-- Beside both instructions, in any order and however often, the lowest register left is `rdx`: `rax` is used for
calls, and no preserved register does without a REX byte. Beside the second alone it is `rax`. -/
theorem ofBody_determined_by_members_sample :
    ofBody [sampleLoad, sampleAddress] = ofBody [sampleAddress, sampleLoad, sampleAddress] ∧
    (ofBody [sampleLoad, sampleAddress]).toOption.map (·.base) = some .rdx ∧
    Chosen [sampleLoad, sampleAddress] .rdx ∧
    ∃ small large, ofBody [sampleAddress] = .ok small ∧ ofBody [sampleLoad, sampleAddress] = .ok large ∧
      small.base = .rax ∧ small.toFootprint.Within large.toFootprint := by
  have both := ofBody_determined_by_members [sampleLoad, sampleAddress] [sampleAddress, sampleLoad, sampleAddress]
  have second := ofBody_determined_by_members [sampleAddress] [sampleLoad, sampleAddress]
  have same : ∀ i, i ∈ [sampleLoad, sampleAddress] ↔ i ∈ [sampleAddress, sampleLoad, sampleAddress] := by
    intro i
    simp only [List.mem_cons, List.not_mem_nil, or_false]
    exact ⟨fun h => h.elim (fun h => .inr (.inl h)) .inl, fun h => h.elim .inr fun h => h⟩
  have candidate : Candidate [sampleLoad, sampleAddress] .rdx := Footprint.candidate_iff.mp (by decide +kernel)
  have base : (ofBody [sampleLoad, sampleAddress]).toOption.map (·.base) = some .rdx := by decide +kernel
  have alone : (ofBody [sampleAddress]).toOption.map (·.base) = some .rax := by decide +kernel
  obtain ⟨large, ok, _, chosen⟩ := both.2.2.2 ⟨_, candidate⟩
  obtain ⟨small, found, within⟩ := second.2.1 (by simp) large ok
  have rdx : large.base = .rdx := by
    rw [ok] at base
    exact Option.some.inj base
  have rax : small.base = .rax := by
    rw [found] at alone
    exact Option.some.inj alone
  exact ⟨both.1 same, base, rdx ▸ chosen, small, large, found, ok, rax, within⟩

end Usage

end Rehost
