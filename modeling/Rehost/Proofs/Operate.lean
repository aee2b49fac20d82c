import Rehost.Machine.Step
import Rehost.Proofs.Form
import Rehost.Proofs.Scene

/-!
# Operations on the machine

The machine's state is a scene for an operation whose memory operand, if it has one, is the slot for the
value of an access. Executing the operation there is applying it to that scene (`operate_eq`).
-/

namespace Rehost

open Host (Operand Formed Paired)

namespace Spot

/-- The spot of an operand; one in memory has its value in the cell of the scene. -/
def ofOperand : Operand → Spot
  | .reg r => .reg r.reg r.high
  | .imm v _ => .value v
  | .mem _ => .cell
  | .label _ => .value 0

@[simp] theorem ofOperand_mem (m : Host.Mem) : ofOperand (.mem m) = .cell := rfl

theorem decide_ofOperand (operand : Operand) : decide (ofOperand operand = .cell) = operand.isMem := by
  cases operand <;> rfl

/-- The spot of a destination. -/
def ofDst (operands : Slots Operand) : Spot := (operands.first.map ofOperand).getD (.value 0)

/-- The spot of a source. Where only the address of a memory operand is wanted, that is its value. -/
def ofSrc (operation : Operation) (regs : RegFile) (operands : Slots Operand) : Spot :=
  match operands.second with
  | some (.mem m) => if operation = .lea then .value (m.address regs) else .cell
  | some operand => ofOperand operand
  | none => .value 0

end Spot

/-- The width at which operands are used. -/
def Slots.width (operands : Slots Operand) : Width := (operands.first.bind Operand.width?).getD .b64

namespace Machine

open Guest (Context)

namespace State

/-- The state as a scene. -/
def scene (s : State) (w : Width) : Scene w where
  regs := s.regs
  status := s.status
  cell := s.context.accessValue.setWidth w.bits

/-- The state with what a scene shows put in its place. -/
def absorb {w : Width} (s : State) (scene : Scene w) : State :=
  { s with
    regs := scene.regs
    flags := Status.replace s.flags scene.status
    context := { s.context with accessValue := setLow s.context.accessValue scene.cell } }

@[simp] theorem absorb_scene (s : State) (w : Width) : s.absorb (s.scene w) = s := by
  simp [absorb, scene, status, setLow_setWidth]

end State

namespace Target

/-- The target at a spot. -/
def ofSpot (w : Width) : Spot → Target
  | .reg r high => .reg ⟨r, w, high⟩
  | .value v => .value v
  | .cell => .place (.slot .accessValue) w

end Target

/-- An operand in memory is the slot for the value of an access. -/
def Landed (contextAddress : Word) (regs : RegFile) : Operand → Prop
  | .mem m => Place.ofAddress? contextAddress (m.address regs) = some (.slot .accessValue)
  | _ => True

theorem ofOperand?_of_fits {contextAddress : Word} {regs : RegFile} {w : Width} {operand : Operand}
    (fits : operand.Fits w) (landed : Landed contextAddress regs operand) :
    Target.ofOperand? contextAddress regs operand = some (.ofSpot w (.ofOperand operand)) := by
  cases operand with
  | reg r => cases fits; rfl
  | imm v declared => rfl
  | mem m =>
    cases fits
    simp only [Target.ofOperand?, show Place.ofAddress? _ _ = _ from landed]
    rfl
  | label l => exact fits.elim

section
variable {w : Width} (s : State) (scene : Scene w) (spot : Spot)

theorem get?_ofSpot : (Target.ofSpot w spot).get? (s.absorb scene) w = some (scene.get spot) := by
  cases spot with
  | reg r high => simp [Target.ofSpot, Target.get?, Scene.get, State.absorb]
  | value v => rfl
  | cell =>
    simp [Target.ofSpot, Target.get?, Scene.get, State.absorb, State.load, Context.get]

theorem put?_ofSpot (value : BitVec w.bits) (writable : (Target.ofSpot w spot).width? = some w) :
    (Target.ofSpot w spot).put? (s.absorb scene) w value = some (s.absorb (scene.put value spot)) := by
  cases spot with
  | reg r high => simp [Target.ofSpot, Target.put?, Scene.put, State.absorb]
  | value v => cases writable
  | cell =>
    simp [Target.ofSpot, Target.put?, Scene.put, State.absorb, State.store, State.load, Context.set,
      Context.get]

theorem status_absorb : (s.absorb scene).status = scene.status := by
  simp [State.absorb, State.status]

theorem setStatus_absorb (status : Status) :
    (s.absorb scene).setStatus status = s.absorb { scene with status } := by
  simp [State.absorb, State.setStatus]

end

section
variable {w : Width} (latitude : Latitude) (s : State) (scene : Scene w) {dst : Spot} (src : Spot)

theorem put?_conclude (outcome : BitVec w.bits × Status)
    (writable : (Target.ofSpot w dst).width? = some w) :
    (Target.ofSpot w dst).put? ((s.absorb scene).setStatus outcome.2) w outcome.1 =
      some (s.absorb (scene.conclude outcome dst)) := by
  rw [setStatus_absorb, put?_ofSpot _ _ _ _ writable, Scene.conclude]

variable (writable : (Target.ofSpot w dst).width? = some w)
include writable

theorem unary_eq (f : (n : Nat) → BitVec n → Status → BitVec n × Status) :
    unary f (.ofSpot w dst) (s.absorb scene) = some (s.absorb (scene.apply latitude (.unary f) dst src)) := by
  simp only [unary, writable, Option.bind_eq_bind, Option.bind_some, get?_ofSpot, status_absorb]
  exact put?_conclude s scene _ writable

theorem binary_eq (f : Latitude → (n : Nat) → BitVec n → BitVec n → Status → BitVec n × Status) :
    binary (f latitude) (.ofSpot w dst) (.ofSpot w src) (s.absorb scene) =
      some (s.absorb (scene.apply latitude (.binary f) dst src)) := by
  simp only [binary, writable, Option.bind_eq_bind, Option.bind_some, get?_ofSpot, status_absorb]
  exact put?_conclude s scene _ writable

theorem compare_eq (f : Latitude → (n : Nat) → BitVec n → BitVec n → Status) :
    compare (f (latitude.comparing (src = .cell))) (.ofSpot w dst) (.ofSpot w src) (s.absorb scene) =
      some (s.absorb (scene.apply latitude (.compare f) dst src)) := by
  simp only [compare, writable, Option.bind_eq_bind, Option.bind_some, get?_ofSpot, setStatus_absorb]
  rfl

theorem shift_eq (f : Latitude → (n : Nat) → BitVec n → Nat → Status → BitVec n × Status) :
    shift (f latitude) (.ofSpot w dst) (scene.count src) (s.absorb scene) =
      some (s.absorb (scene.apply latitude (.shift f) dst src)) := by
  simp only [shift, writable, Option.bind_eq_bind, Option.bind_some, get?_ofSpot, status_absorb]
  exact put?_conclude s scene _ writable

theorem move_eq :
    move (.ofSpot w dst) (.ofSpot w src) (s.absorb scene) =
      some (s.absorb (scene.apply latitude .move dst src)) := by
  simp only [move, writable, Option.bind_eq_bind, Option.bind_some, get?_ofSpot]
  exact put?_ofSpot s scene dst _ writable

theorem swap_eq (sourceWritable : (Target.ofSpot w src).width? = some w) :
    swap (.ofSpot w dst) (.ofSpot w src) (s.absorb scene) =
      some (s.absorb (scene.apply latitude .swap dst src)) := by
  simp only [swap, writable, Option.bind_eq_bind, Option.bind_some, get?_ofSpot,
    put?_ofSpot s scene dst _ writable]
  exact put?_ofSpot s _ src _ sourceWritable

end

/-- A destination can be written to. -/
theorem writable_of_width? {operand : Operand} {w : Width} (width : operand.width? = some w) :
    operand.Fits w ∧ (Target.ofSpot w (.ofOperand operand)).width? = some w := by
  cases operand with
  | reg r => cases width; exact ⟨rfl, rfl⟩
  | mem m => cases width; exact ⟨rfl, rfl⟩
  | imm v declared => cases width
  | label l => cases width

theorem count?_eq (s : State) (w : Width) {count : Operand} (isCount : count.IsCount) :
    count? s.regs count = some ((s.scene w).count (.ofOperand count)) := by
  cases count with
  | reg r => cases isCount; rfl
  | imm v declared => rfl
  | mem m => exact isCount.elim
  | label l => exact isCount.elim

theorem eq_lea_of_action {operation : Operation} (action : operation.action = .address) :
    operation = .lea := by
  cases operation with
  | lea => rfl
  | _ => cases action

theorem eq_xchg_of_action {operation : Operation} (action : operation.action = .swap) : operation = .xchg := by
  cases operation with
  | xchg => rfl
  | _ => cases action

theorem ne_lea_of_action {operation : Operation} {found : Action} (action : operation.action = found)
    (other : found ≠ .address) : operation ≠ .lea := by
  rintro rfl
  exact other action.symm

theorem ofSrc_eq {operation : Operation} (accesses : operation ≠ .lea) (regs : RegFile) (dst src : Operand) :
    Spot.ofSrc operation regs { first := some dst, second := some src } = .ofOperand src := by
  cases src with
  | mem m => simp [Spot.ofSrc, accesses, Spot.ofOperand]
  | _ => rfl

theorem width_eq {dst : Operand} {w : Width} (width : dst.width? = some w) (second third fourth : Option Operand) :
    Slots.width ⟨some dst, second, third, fourth⟩ = w := by
  simp [Slots.width, width]

/-- An action on one operand is one on its spot. -/
theorem bind_target {contextAddress : Word} {s : State} {w : Width} {dst : Operand} {result : Option State}
    (act : Target → State → Option State) (width : dst.width? = some w)
    (landed : Landed contextAddress s.regs dst)
    (done : act (.ofSpot w (.ofOperand dst)) (s.absorb (s.scene w)) = result) :
    (do act (← Target.ofOperand? contextAddress s.regs dst) s) = result := by
  rw [State.absorb_scene] at done
  simp only [ofOperand?_of_fits (writable_of_width? width).1 landed, Option.bind_eq_bind, Option.bind_some, done]

/-- An action on two operands is one on their spots. -/
theorem bind_targets {contextAddress : Word} {s : State} {w : Width} {dst src : Operand}
    {result : Option State} {act : Target → Target → State → Option State} (paired : Paired w dst src)
    (dstLanded : Landed contextAddress s.regs dst) (srcLanded : Landed contextAddress s.regs src)
    (done : act (.ofSpot w (.ofOperand dst)) (.ofSpot w (.ofOperand src)) (s.absorb (s.scene w)) = result) :
    (do act (← Target.ofOperand? contextAddress s.regs dst)
          (← Target.ofOperand? contextAddress s.regs src) s) = result := by
  rw [State.absorb_scene] at done
  simp only [ofOperand?_of_fits (writable_of_width? paired.destination).1 dstLanded,
    ofOperand?_of_fits paired.source srcLanded, Option.bind_eq_bind, Option.bind_some, done]

/-- Executing an operation is applying it to the scene that the state shows. -/
theorem operate_eq {latitude : Latitude} {contextAddress : Word} {operation : Operation}
    {operands : Slots Operand} {s : State} (formed : Formed operation operands)
    (landed : operation ≠ .lea → ∀ operand, operands.first = some operand ∨ operands.second = some operand →
      Landed contextAddress s.regs operand) :
    operate latitude contextAddress operation operands s =
      some (s.absorb ((s.scene operands.width).apply latitude operation.action (.ofDst operands)
        (.ofSrc operation s.regs operands))) := by
  unfold Formed at formed
  unfold operate
  cases action : operation.action with
  | idle =>
    rw [action] at formed
    subst formed
    simp [Scene.apply]
  | address =>
    rw [action] at formed
    obtain ⟨r, m, rfl⟩ := formed
    obtain rfl := eq_lea_of_action action
    have done := put?_ofSpot s (s.scene r.width) (.reg r.reg r.high)
      ((m.address s.regs).setWidth r.width.bits) rfl
    rw [State.absorb_scene] at done
    exact done
  | move =>
    rw [action] at formed
    obtain ⟨dst, src, w, rfl, paired⟩ := formed
    have accesses := ne_lea_of_action action (by simp)
    obtain rfl := width_eq paired.destination (some src) none none
    rw [ofSrc_eq accesses]
    exact bind_targets paired (landed accesses dst (.inl rfl)) (landed accesses src (.inr rfl))
      (move_eq latitude s _ _ (writable_of_width? paired.destination).2)
  | swap =>
    rw [action] at formed
    obtain ⟨dst, src, w, rfl, paired, srcWidth⟩ := formed
    have accesses := ne_lea_of_action action (by simp)
    obtain rfl := width_eq paired.destination (some src) none none
    rw [ofSrc_eq accesses]
    exact bind_targets paired (landed accesses dst (.inl rfl)) (landed accesses src (.inr rfl))
      (swap_eq latitude s _ _ (writable_of_width? paired.destination).2 (writable_of_width? srcWidth).2)
  | unary f =>
    rw [action] at formed
    obtain ⟨dst, w, rfl, width⟩ := formed
    have accesses := ne_lea_of_action action (by simp)
    obtain rfl := width_eq width none none none
    exact bind_target _ width (landed accesses dst (.inl rfl))
      (unary_eq latitude s _ _ (writable_of_width? width).2 f)
  | binary f =>
    rw [action] at formed
    obtain ⟨dst, src, w, rfl, paired⟩ := formed
    have accesses := ne_lea_of_action action (by simp)
    obtain rfl := width_eq paired.destination (some src) none none
    rw [ofSrc_eq accesses]
    exact bind_targets paired (landed accesses dst (.inl rfl)) (landed accesses src (.inr rfl))
      (binary_eq latitude s _ _ (writable_of_width? paired.destination).2 f)
  | compare f =>
    rw [action] at formed
    obtain ⟨dst, src, w, rfl, paired⟩ := formed
    have accesses := ne_lea_of_action action (by simp)
    obtain rfl := width_eq paired.destination (some src) none none
    rw [ofSrc_eq accesses]
    dsimp only
    rw [← Spot.decide_ofOperand]
    exact bind_targets paired (landed accesses dst (.inl rfl)) (landed accesses src (.inr rfl))
      (compare_eq latitude s _ _ (writable_of_width? paired.destination).2 f)
  | shift f =>
    rw [action] at formed
    obtain ⟨dst, count, w, rfl, width, isCount⟩ := formed
    have accesses := ne_lea_of_action action (by simp)
    obtain rfl := width_eq width (some count) none none
    rw [ofSrc_eq accesses]
    have counted := count?_eq s (Slots.width ⟨some dst, some count, none, none⟩) isCount
    have done := shift_eq latitude s (s.scene _) (.ofOperand count) (writable_of_width? width).2 f
    refine bind_target (fun target s => do shift (f latitude) target (← count? s.regs count) s) width
      (landed accesses dst (.inl rfl)) ?_
    rw [State.absorb_scene] at done ⊢
    simp only [counted, Option.bind_eq_bind, Option.bind_some]
    exact done

end Machine

end Rehost
