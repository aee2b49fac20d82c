import Rehost.Host.Instr
import Rehost.Proofs.Status
import Rehost.Proofs.Word

/-!
# What an operation does

An operation acts on a `Scene`: the registers, the arithmetic flags, and one value that stands for its
memory operand. `Scene.apply` is the whole effect of an operation, with where its memory operand is left
open, so it is what direct execution and the machine have in common.

Two facts about it carry the rest of the theory. Registers that no operand names keep their values, and
so do flags that the operation does not write (`regs_apply`, `status_apply`). Scenes that agree on what an
operation reads agree afterwards also on what it writes (`Scene.Agree.apply`).
-/

namespace Rehost

/-- Where an operand has its value. -/
inductive Spot where
  | reg (r : Reg) (high : Bool)
  | value (v : Word)
  /-- In memory. -/
  | cell
  deriving DecidableEq, Repr

/-- Whether an operand at this spot names a register. -/
def Spot.Names (r : Reg) : Spot → Prop
  | reg s _ => s = r
  | value _ => False
  | cell => False

/-- What an operation of width `w` acts on. -/
structure Scene (w : Width) where
  regs : RegFile
  status : Status
  cell : BitVec w.bits

namespace Scene

variable {w : Width}

def get (scene : Scene w) : Spot → BitVec w.bits
  | .reg r high => scene.regs.part r high w
  | .value v => v.setWidth w.bits
  | .cell => scene.cell

def put (scene : Scene w) (value : BitVec w.bits) : Spot → Scene w
  | .reg r high => { scene with regs := scene.regs.setPart r high w value }
  | .value _ => scene
  | .cell => { scene with cell := value }

/-- The count of a shift: a byte. -/
def count (scene : Scene w) : Spot → Nat
  | .reg r high => (scene.regs.part r high .b8).toNat
  | .value v => (v.setWidth 8).toNat
  | .cell => 0

/-- Sets the flags and a result. -/
def conclude (scene : Scene w) (outcome : BitVec w.bits × Status) (dst : Spot) : Scene w :=
  { scene with status := outcome.2 }.put outcome.1 dst

/-- The effect of an operation. -/
def apply (latitude : Latitude) (action : Action) (dst src : Spot) (scene : Scene w) : Scene w :=
  match action with
  | .idle => scene
  | .address => scene.put (scene.get src) dst
  | .move => scene.put (scene.get src) dst
  | .swap => (scene.put (scene.get src) dst).put (scene.get dst) src
  | .unary f => scene.conclude (f w.bits (scene.get dst) scene.status) dst
  | .binary f => scene.conclude (f latitude w.bits (scene.get dst) (scene.get src) scene.status) dst
  | .compare f =>
    { scene with status := f (latitude.comparing (src = .cell)) w.bits (scene.get dst) (scene.get src) }
  | .shift f => scene.conclude (f latitude w.bits (scene.get dst) (scene.count src) scene.status) dst

/-! ### What is left alone -/

@[simp] theorem status_put (scene : Scene w) (value : BitVec w.bits) (spot : Spot) :
    (scene.put value spot).status = scene.status := by
  cases spot <;> rfl

theorem regs_put (scene : Scene w) (value : BitVec w.bits) {spot : Spot} {r : Reg}
    (other : ¬ spot.Names r) : (scene.put value spot).regs.get r = scene.regs.get r := by
  cases spot with
  | reg s high => exact RegFile.get_setPart_of_ne _ high w value other
  | value v => rfl
  | cell => rfl

/-- An operation changes no register that its operands do not name. -/
theorem regs_apply (latitude : Latitude) (action : Action) {dst src : Spot} (scene : Scene w) {r : Reg}
    (notDst : ¬ dst.Names r) (notSrc : ¬ src.Names r) :
    (scene.apply latitude action dst src).regs.get r = scene.regs.get r := by
  cases action with
  | idle => rfl
  | compare f => rfl
  | swap =>
    rw [apply, regs_put _ _ notSrc, regs_put _ _ notDst]
  | address => exact regs_put _ _ notDst
  | move => exact regs_put _ _ notDst
  | unary f => exact regs_put _ _ notDst
  | binary f => exact regs_put _ _ notDst
  | shift f => exact regs_put _ _ notDst

end Scene

/-! ### Flags -/

namespace Action

/-- Flags outside the mask are kept. -/
def Keeps (writes : Word) : Action → Prop
  | .unary f => ∀ n a p, Status.Agree (~~~writes) p (f n a p).2
  | .binary f => ∀ latitude n a b p, Status.Agree (~~~writes) p (f latitude n a b p).2
  | .compare f => ∀ latitude n a b p, Status.Agree (~~~writes) p (f latitude n a b)
  | .shift f => ∀ latitude n a count p, Status.Agree (~~~writes) p (f latitude n a count p).2
  | _ => True

/-- From flags that agree on a mask with all that is read come equal results, and flags that agree
also on what is written. -/
def Settles (reads writes : Word) : Action → Prop
  | .unary f => ∀ n a p q mask, Flag.Within reads mask → Status.Agree mask p q →
      (f n a p).1 = (f n a q).1 ∧ Status.Agree (mask ||| writes) (f n a p).2 (f n a q).2
  | .binary f => ∀ latitude n a b p q mask, Flag.Within reads mask → Status.Agree mask p q →
      (f latitude n a b p).1 = (f latitude n a b q).1 ∧
        Status.Agree (mask ||| writes) (f latitude n a b p).2 (f latitude n a b q).2
  | .shift f => ∀ latitude n a count p q mask, Flag.Within reads mask → Status.Agree mask p q →
      (f latitude n a count p).1 = (f latitude n a count q).1 ∧
        Status.Agree (mask ||| writes) (f latitude n a count p).2 (f latitude n a count q).2
  | .compare _ => True
  | _ => writes = 0

end Action

namespace Operation

/-- An operation writes no flag that it is not said to write. -/
theorem keeps (operation : Operation) :
    operation.action.Keeps (Host.operationEffects operation).flagsWritten := by
  cases operation with
  | add | adc | sub | sbb | and | or | xor =>
    intro latitude n a b p
    exact Status.agree_not_status _ _
  | cmp | test =>
    intro latitude n a b p
    exact Status.agree_not_status _ _
  | neg =>
    intro n a p
    exact Status.agree_not_status _ _
  | not =>
    intro n a p
    exact Status.Agree.refl _ _
  | inc | dec =>
    intro n a p
    constructor <;> intro outside <;> simp [Host.operationEffects, Flag.carry, Flag.status] at outside
    rfl
  | shl | shr | sar =>
    intro latitude n a count p
    exact Status.agree_not_status _ _
  | rol | ror =>
    intro latitude n a count p
    constructor <;> intro outside <;>
      simp [Host.operationEffects, Flag.carry, Flag.overflow] at outside <;>
      simp only [rotateLeft, rotateRight] <;> split <;> rfl
  | mov | lea | xchg | nop => trivial

/-- An operation depends on no flag that it is not said to read. -/
theorem settles (operation : Operation) :
    operation.action.Settles (Host.operationEffects operation).flagsRead
      (Host.operationEffects operation).flagsWritten := by
  cases operation with
  | add | sub | and | or | xor =>
    intro latitude n a b p q mask _ _
    exact ⟨rfl, Status.Agree.refl _ _⟩
  | adc | sbb =>
    intro latitude n a b p q mask within agree
    have same : p.carry = q.carry := agree.carry (within 0 (by decide))
    simp only [same, true_and]
    exact Status.Agree.refl _ _
  | cmp | test => trivial
  | neg =>
    intro n a p q mask _ _
    exact ⟨rfl, Status.Agree.refl _ _⟩
  | not =>
    intro n a p q mask _ agree
    exact ⟨rfl, agree.or_within (by intro i inside; simp [Host.operationEffects] at inside)⟩
  | inc | dec =>
    intro n a p q mask _ agree
    refine ⟨rfl, fun inside => ?_, fun _ => rfl, fun _ => rfl, fun _ => rfl, fun _ => rfl, fun _ => rfl⟩
    apply agree.carry
    simpa [Host.operationEffects, Flag.status, Flag.carry] using inside
  | shl | shr | sar =>
    intro latitude n a count p q mask within agree
    simp only [shiftLeft, shiftRight, shiftArithmetic]
    split
    · exact ⟨rfl, agree.or_within within⟩
    · exact ⟨rfl, Status.Agree.refl _ _⟩
  | rol | ror =>
    intro latitude n a count p q mask within agree
    have same := agree.or_within within
    simp only [rotateLeft, rotateRight]
    split
    · exact ⟨rfl, same⟩
    · exact ⟨rfl, fun _ => rfl, same.parity, same.adjust, same.zero, same.sign, fun _ => rfl⟩
  | mov | lea | xchg | nop => rfl

end Operation

namespace Scene

variable {w : Width}

/-- Scenes that are alike in some registers, the flags of a mask, and the value in memory. -/
structure Agree (shared : Reg → Prop) (mask : Word) (one two : Scene w) : Prop where
  regs : ∀ r, shared r → one.regs.get r = two.regs.get r
  status : Status.Agree mask one.status two.status
  cell : one.cell = two.cell

variable {shared : Reg → Prop} {mask : Word} {one two : Scene w}

theorem Agree.get (agree : Agree shared mask one two) {spot : Spot}
    (named : ∀ r, spot.Names r → shared r) : one.get spot = two.get spot := by
  cases spot with
  | reg r high =>
    have same := agree.regs r (named r rfl)
    simp only [Scene.get, RegFile.part, same]
  | value v => rfl
  | cell => exact agree.cell

theorem Agree.count (agree : Agree shared mask one two) {spot : Spot}
    (named : ∀ r, spot.Names r → shared r) : one.count spot = two.count spot := by
  cases spot with
  | reg r high =>
    have same := agree.regs r (named r rfl)
    simp only [Scene.count, RegFile.part, same]
  | value v => rfl
  | cell => rfl

theorem Agree.put (agree : Agree shared mask one two) (value : BitVec w.bits) {spot : Spot}
    (named : ∀ r, spot.Names r → shared r) : Agree shared mask (one.put value spot) (two.put value spot) := by
  cases spot with
  | reg r high =>
    refine ⟨fun s member => ?_, agree.status, agree.cell⟩
    exact RegFile.get_setPart_congr high w value (agree.regs r (named r rfl)) (agree.regs s member)
  | value v => exact agree
  | cell => exact ⟨agree.regs, agree.status, rfl⟩

theorem Agree.conclude (agree : Agree shared mask one two) {larger : Word}
    {first second : BitVec w.bits × Status} (results : first.1 = second.1)
    (flags : Status.Agree larger first.2 second.2) {dst : Spot} (named : ∀ r, dst.Names r → shared r) :
    Agree shared larger (one.conclude first dst) (two.conclude second dst) := by
  have set : Agree shared larger { one with status := first.2 } { two with status := second.2 } :=
    ⟨agree.regs, flags, agree.cell⟩
  rw [Scene.conclude, Scene.conclude, results]
  exact set.put second.1 named

/-- Scenes that agree on what an operation reads agree afterwards also on the flags it writes. -/
theorem Agree.apply (agree : Agree shared mask one two) (latitude : Latitude) (operation : Operation)
    {dst src : Spot} (within : Flag.Within (Host.operationEffects operation).flagsRead mask)
    (dstNamed : ∀ r, dst.Names r → shared r) (srcNamed : ∀ r, src.Names r → shared r) :
    Agree shared (mask ||| (Host.operationEffects operation).flagsWritten)
      (one.apply latitude operation.action dst src) (two.apply latitude operation.action dst src) := by
  have settles := operation.settles
  have sameDst := agree.get dstNamed
  have sameSrc := agree.get srcNamed
  have sameCount := agree.count srcNamed
  generalize (Host.operationEffects operation).flagsWritten = written at settles
  -- An action that computes nothing writes no flag.
  have still (none : written = 0) : Agree shared (mask ||| written) one two :=
    ⟨agree.regs, agree.status.or_within (by intro i inside; simp [none] at inside), agree.cell⟩
  cases action : operation.action with
  | idle =>
    rw [action] at settles
    exact still settles
  | address | move =>
    rw [action] at settles
    simp only [Scene.apply, sameSrc]
    exact (still settles).put _ dstNamed
  | swap =>
    rw [action] at settles
    simp only [Scene.apply, sameDst, sameSrc]
    exact ((still settles).put _ dstNamed).put _ srcNamed
  | unary f =>
    rw [action] at settles
    obtain ⟨results, flags⟩ := settles w.bits (two.get dst) one.status two.status mask within agree.status
    simp only [Scene.apply, sameDst]
    exact agree.conclude results flags dstNamed
  | binary f =>
    rw [action] at settles
    obtain ⟨results, flags⟩ :=
      settles latitude w.bits (two.get dst) (two.get src) one.status two.status mask within agree.status
    simp only [Scene.apply, sameDst, sameSrc]
    exact agree.conclude results flags dstNamed
  | compare f =>
    simp only [Scene.apply, sameDst, sameSrc]
    exact ⟨agree.regs, Status.Agree.refl _ _, agree.cell⟩
  | shift f =>
    rw [action] at settles
    obtain ⟨results, flags⟩ :=
      settles latitude w.bits (two.get dst) (two.count src) one.status two.status mask within agree.status
    simp only [Scene.apply, sameDst, sameCount]
    exact agree.conclude results flags dstNamed

/-- An operation changes no flag that it is not said to write. -/
theorem status_apply (latitude : Latitude) (operation : Operation) (dst src : Spot) (scene : Scene w) :
    Status.Agree (~~~(Host.operationEffects operation).flagsWritten) scene.status
      (scene.apply latitude operation.action dst src).status := by
  have keeps := operation.keeps
  generalize (Host.operationEffects operation).flagsWritten = written at keeps
  cases action : operation.action with
  | idle | address | move | swap =>
    simp only [apply, status_put]
    exact Status.Agree.refl _ _
  | unary f =>
    rw [action] at keeps
    simpa only [apply, conclude, status_put] using keeps _ _ _
  | binary f =>
    rw [action] at keeps
    simpa only [apply, conclude, status_put] using keeps _ _ _ _ _
  | compare f =>
    rw [action] at keeps
    exact keeps _ _ _ _ _
  | shift f =>
    rw [action] at keeps
    simpa only [apply, conclude, status_put] using keeps _ _ _ _ _

end Scene
end Rehost
