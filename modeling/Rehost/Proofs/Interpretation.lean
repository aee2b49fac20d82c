import Rehost.Proofs.Operate
import Rehost.Proofs.Selection

/-!
# Direct execution as one round trip

An instruction uses memory at one address at most. Executing it directly is then to read the value there
if it reads memory, to apply its operation to the scene of registers, flags and that value, and to write
the value back if it writes memory: `perform`. A selected instruction is executed in this way
(`execute_eq`).
-/

namespace Rehost

namespace Action

/-- Whether a value in memory is read. -/
def reads (action : Action) (dst src : Spot) : Bool :=
  match action with
  | .idle | .address => false
  | .move => decide (src = .cell)
  | .unary _ | .shift _ => decide (dst = .cell)
  | .swap | .binary _ | .compare _ => decide (dst = .cell ∨ src = .cell)

/-- Whether a value in memory is written. -/
def writes (action : Action) (dst src : Spot) : Bool :=
  match action with
  | .idle | .address | .compare _ => false
  | .move | .unary _ | .binary _ | .shift _ => decide (dst = .cell)
  | .swap => decide (dst = .cell ∨ src = .cell)

end Action

namespace Guest.Interpreter

variable {σ : Type}

/-- The location of a spot, given the address of the one in memory. -/
def locate (address : Word) : Spot → Location
  | .reg r high => .reg r high
  | .value v => .value v
  | .cell => .memory address

namespace State

/-- The state as a scene, with a value for the one in memory. -/
def scene (s : State σ) {w : Width} (cell : BitVec w.bits) : Scene w where
  regs := s.context.gp
  status := s.status
  cell := cell

/-- The state with the registers and flags of a scene. -/
def absorb (s : State σ) {w : Width} (scene : Scene w) : State σ :=
  { s with context :=
    { s.context with gp := scene.regs, flags := Status.replace s.context.flags scene.status } }

@[simp] theorem absorb_scene (s : State σ) {w : Width} (cell : BitVec w.bits) :
    s.absorb (s.scene cell) = s := by
  simp [absorb, scene, status]

end State

/-- The value in memory, if it is read at all. -/
def fetchIf (handler : Handler σ) (reads : Bool) (address : Word) {w : Width} (old : BitVec w.bits) (s : State σ) :
    Except (Stop σ) (BitVec w.bits × State σ) :=
  if reads then fetch handler w s (.memory address) else .ok (old, s)

/-- Puts a value into memory, if it is written at all. -/
def storeIf (handler : Handler σ) (writes : Bool) (address : Word) {w : Width} (value : BitVec w.bits) (s : State σ) :
    Except (Stop σ) (State σ) :=
  if writes then store handler w value s (.memory address) else .ok s

/-- An action on spots: memory is read, the action applied, and memory written. Without a read the cell
of the scene is `old`. -/
def perform (latitude : Latitude) (handler : Handler σ) (address : Word) (action : Action) (dst src : Spot)
    {w : Width} (old : BitVec w.bits) (s : State σ) : Except (Stop σ) (State σ) := do
  let (value, s) ← fetchIf handler (action.reads dst src) address old s
  let scene := (s.scene value).apply latitude action dst src
  storeIf handler (action.writes dst src) address scene.cell (s.absorb scene)

section
variable (latitude : Latitude) (handler : Handler σ) (address : Word) {w : Width} (old : BitVec w.bits)
  {dst src : Spot} (s : State σ)

/-- Reading memory changes neither registers nor flags. -/
theorem context_of_fetch {handler : Handler σ} {address : Word} {s t : State σ} {value : BitVec w.bits}
    (fetched : fetch handler w s (.memory address) = .ok (value, t)) : t.context = s.context := by
  simp only [fetch] at fetched
  split at fetched
  · cases fetched; rfl
  · cases fetched

/-- What follows a read may take registers and flags from before it. -/
theorem bind_fetch_congr {β : Type} {one two : BitVec w.bits × State σ → Except (Stop σ) β}
    (same : ∀ value t, t.context = s.context → one (value, t) = two (value, t)) :
    fetch handler w s (.memory address) >>= one = fetch handler w s (.memory address) >>= two := by
  cases fetched : fetch handler w s (.memory address) with
  | error stop => rfl
  | ok result => exact same result.1 result.2 (context_of_fetch fetched)

theorem unary_locate (f : (n : Nat) → BitVec n → Status → BitVec n × Status) (writable : ∀ v, dst ≠ .value v) :
    unary handler f w (locate address dst) s =
      perform latitude handler address (.unary f) dst src old s := by
  cases dst with
  | reg r high => rfl
  | value v => exact absurd rfl (writable v)
  | cell => rfl

theorem shift_locate (f : Latitude → (n : Nat) → BitVec n → Nat → Status → BitVec n × Status)
    (writable : ∀ v, dst ≠ .value v) :
    unary handler (fun n value status => f latitude n value ((s.scene old).count src) status) w
        (locate address dst) s =
      perform latitude handler address (.shift f) dst src old s := by
  cases dst with
  | reg r high => rfl
  | value v => exact absurd rfl (writable v)
  | cell =>
    apply bind_fetch_congr
    intro value t same
    have counts : (s.scene old).count src = (t.scene value).count src := by
      cases src <;> simp only [State.scene, Scene.count, same]
    rw [counts]
    rfl

theorem binary_locate (f : Latitude → (n : Nat) → BitVec n → BitVec n → Status → BitVec n × Status)
    (writable : ∀ v, dst ≠ .value v) (apart : ¬(dst = .cell ∧ src = .cell)) :
    binary handler (f latitude) w (locate address dst) (locate address src) s =
      perform latitude handler address (.binary f) dst src old s := by
  cases dst with
  | value v => exact absurd rfl (writable v)
  | reg r high =>
    cases src with
    | reg q upper => rfl
    | value v => rfl
    | cell =>
      apply bind_fetch_congr
      intro value t same
      rw [← same]
      rfl
  | cell =>
    cases src with
    | reg q upper => rfl
    | value v => rfl
    | cell => exact absurd ⟨rfl, rfl⟩ apart

theorem compare_locate (f : Latitude → (n : Nat) → BitVec n → BitVec n → Status)
    (writable : ∀ v, dst ≠ .value v) (apart : ¬(dst = .cell ∧ src = .cell)) :
    compare handler (f (latitude.comparing (src = .cell))) w (locate address dst) (locate address src) s =
      perform latitude handler address (.compare f) dst src old s := by
  cases dst with
  | value v => exact absurd rfl (writable v)
  | reg r high =>
    cases src with
    | reg q upper => rfl
    | value v => rfl
    | cell =>
      apply bind_fetch_congr
      intro value t same
      rw [← same]
      rfl
  | cell =>
    cases src with
    | reg q upper => rfl
    | value v => rfl
    | cell => exact absurd ⟨rfl, rfl⟩ apart

/-- Only a register that is put is seen to change. -/
theorem absorb_regs (cell : BitVec w.bits) (regs : RegFile) :
    s.absorb { s.scene old with regs, cell } = { s with context := { s.context with gp := regs } } := by
  simp [State.absorb, State.scene, State.status]

theorem move_locate (writable : ∀ v, dst ≠ .value v) (apart : ¬(dst = .cell ∧ src = .cell)) :
    move handler w (locate address dst) (locate address src) s =
      perform latitude handler address .move dst src old s := by
  cases dst with
  | value v => exact absurd rfl (writable v)
  | reg r high =>
    cases src with
    | reg q upper => exact congrArg Except.ok (absorb_regs old s old _).symm
    | value v => exact congrArg Except.ok (absorb_regs old s old _).symm
    | cell =>
      apply bind_fetch_congr
      intro value t same
      exact congrArg Except.ok (absorb_regs value t value _).symm
  | cell =>
    cases src with
    | reg q upper =>
      exact congrArg (fun s => store handler w _ s (.memory address)) (absorb_regs old s _ _).symm
    | value v =>
      exact congrArg (fun s => store handler w _ s (.memory address)) (absorb_regs old s _ _).symm
    | cell => exact absurd ⟨rfl, rfl⟩ apart

theorem swap_locate (writable : ∀ v, dst ≠ .value v) (sourceWritable : ∀ v, src ≠ .value v)
    (apart : ¬(dst = .cell ∧ src = .cell)) :
    swap handler w (locate address dst) (locate address src) s =
      perform latitude handler address .swap dst src old s := by
  cases dst with
  | value v => exact absurd rfl (writable v)
  | reg r high =>
    cases src with
    | value v => exact absurd rfl (sourceWritable v)
    | reg q upper => exact congrArg Except.ok (absorb_regs old s old _).symm
    | cell =>
      apply bind_fetch_congr
      intro value t same
      rw [← same]
      exact congrArg (fun t => store handler w _ t (.memory address)) (absorb_regs value t _ _).symm
  | cell =>
    cases src with
    | value v => exact absurd rfl (sourceWritable v)
    | reg q upper =>
      apply bind_fetch_congr
      intro value t same
      exact congrArg (fun t => store handler w _ t (.memory address)) (absorb_regs value t _ _).symm
    | cell => exact absurd ⟨rfl, rfl⟩ apart

end

end Guest.Interpreter

/-! ### Selected instructions -/

open Guest.Interpreter (locate)
open Host (Operand Paired Formed)
open Selection (Selected SelectedSlots)

/-- The address of the operand in memory. -/
def Slots.address (operands : Slots Operand) (regs : RegFile) : Word :=
  match operands.first, operands.second with
  | some (.mem m), _ => m.address regs
  | _, some (.mem m) => m.address regs
  | _, _ => 0

theorem Spot.ofOperand_eq_cell {operand : Operand} : Spot.ofOperand operand = .cell ↔ operand.isMem := by
  rw [← Spot.decide_ofOperand, decide_eq_true_iff]

theorem Spot.not_both_cell {dst src : Operand} (apart : ¬(dst.isMem ∧ src.isMem)) :
    ¬(Spot.ofOperand dst = .cell ∧ Spot.ofOperand src = .cell) := by
  rw [ofOperand_eq_cell, ofOperand_eq_cell]
  exact apart

theorem Spot.ofOperand_ne_value {operand : Operand} {w : Width} (width : operand.width? = some w) (v : Word) :
    Spot.ofOperand operand ≠ .value v := by
  cases operand with
  | reg r => nofun
  | mem m => nofun
  | imm v declared => cases width
  | label l => cases width

theorem location_dst (dst : Operand) (src : Option Operand) (regs : RegFile) :
    dst.location regs = locate (Slots.address { first := some dst, second := src } regs) (.ofOperand dst) := by
  cases dst <;> rfl

theorem location_src {dst src : Operand} (apart : ¬(dst.isMem ∧ src.isMem)) (regs : RegFile) :
    src.location regs =
      locate (Slots.address { first := some dst, second := some src } regs) (.ofOperand src) := by
  cases src with
  | mem m =>
    cases dst with
    | mem n => exact absurd ⟨rfl, rfl⟩ apart
    | _ => rfl
  | _ => rfl

namespace Guest.Interpreter

variable {σ : Type}

theorem withOne_eq {g : Guest.Operand} {dst : Host.Operand} {w : Width} (selected : Selected g dst)
    (width : dst.width? = some w) (s : State σ)
    (act : Width → Location → State σ → Except (Stop σ) (State σ)) :
    withOne g s act = act w (dst.location s.context.gp) s := by
  have fits := (Machine.writable_of_width? width).1
  simp [withOne, selected.destinationWidth?, width, selected.location? fits]

theorem withTwo_eq {g h : Guest.Operand} {dst src : Host.Operand} {w : Width} (first : Selected g dst)
    (second : Selected h src) (paired : Paired w dst src) (s : State σ)
    (act : Width → Location → Location → State σ → Except (Stop σ) (State σ)) :
    withTwo g h s act = act w (dst.location s.context.gp) (src.location s.context.gp) s := by
  have fits := (Machine.writable_of_width? paired.destination).1
  simp [withTwo, first.destinationWidth?, paired.destination, first.location? fits,
    second.location? paired.source]

theorem count?_eq {g : Guest.Operand} {count : Host.Operand} (selected : Selected g count)
    (isCount : count.IsCount) (s : State σ) {w : Width} (old : BitVec w.bits) :
    count? s.context.gp g = some ((s.scene old).count (.ofOperand count)) := by
  cases selected with
  | reg width free =>
    cases isCount
    simp [count?, width, Spot.ofOperand, Scene.count, State.scene]
  | imm v width => rfl
  | mem width => exact isCount.elim

/-- A selected instruction is executed by reading memory, applying its operation, and writing memory. -/
theorem execute_eq {latitude : Latitude} {handler : Handler σ} {i : Instruction} {operation : Operation}
    {operands : Slots Host.Operand} (mnemonic : i.mnemonic = .op operation)
    (selected : SelectedSlots i.operands operands) (formed : Formed operation operands)
    (old : BitVec operands.width.bits) (s : State σ) :
    execute latitude handler i s =
      perform latitude handler (operands.address s.context.gp) operation.action (.ofDst operands)
        (.ofSrc operation s.context.gp operands) old s := by
  unfold Formed at formed
  simp only [execute, mnemonic]
  cases action : operation.action with
  | idle =>
    rw [action] at formed
    subst formed
    simp only [operate, action, selected.none]
    exact congrArg Except.ok (s.absorb_scene old).symm
  | address =>
    rw [action] at formed
    obtain ⟨r, m, rfl⟩ := formed
    obtain rfl := Machine.eq_lea_of_action action
    obtain ⟨_, _, same, first, second⟩ := selected.two
    cases second with
    | mem _ address =>
      cases first with
      | reg width free =>
        simp only [operate, action, same, loadAddress, address, withOne_eq (.reg width free) rfl]
        exact congrArg Except.ok (absorb_regs old s old _).symm
  | move =>
    rw [action] at formed
    obtain ⟨dst, src, w, rfl, paired⟩ := formed
    obtain ⟨_, _, same, first, second⟩ := selected.two
    obtain rfl := Machine.width_eq paired.destination (some src) none none
    rw [Machine.ofSrc_eq (Machine.ne_lea_of_action action (by simp))]
    simp only [operate, action, same, withTwo_eq first second paired]
    rw [location_dst dst (some src), location_src paired.apart]
    exact move_locate latitude handler _ old s (Spot.ofOperand_ne_value paired.destination)
      (Spot.not_both_cell paired.apart)
  | swap =>
    rw [action] at formed
    obtain ⟨dst, src, w, rfl, paired, srcWidth⟩ := formed
    obtain ⟨_, _, same, first, second⟩ := selected.two
    obtain rfl := Machine.width_eq paired.destination (some src) none none
    rw [Machine.ofSrc_eq (Machine.ne_lea_of_action action (by simp))]
    simp only [operate, action, same, withTwo_eq first second paired]
    rw [location_dst dst (some src), location_src paired.apart]
    exact swap_locate latitude handler _ old s (Spot.ofOperand_ne_value paired.destination)
      (Spot.ofOperand_ne_value srcWidth) (Spot.not_both_cell paired.apart)
  | unary f =>
    rw [action] at formed
    obtain ⟨dst, w, rfl, width⟩ := formed
    obtain ⟨_, same, first⟩ := selected.one
    obtain rfl := Machine.width_eq width none none none
    simp only [operate, action, same, withOne_eq first width]
    rw [location_dst dst none]
    exact unary_locate latitude handler _ old s f (Spot.ofOperand_ne_value width)
  | binary f =>
    rw [action] at formed
    obtain ⟨dst, src, w, rfl, paired⟩ := formed
    obtain ⟨_, _, same, first, second⟩ := selected.two
    obtain rfl := Machine.width_eq paired.destination (some src) none none
    rw [Machine.ofSrc_eq (Machine.ne_lea_of_action action (by simp))]
    simp only [operate, action, same, withTwo_eq first second paired]
    rw [location_dst dst (some src), location_src paired.apart]
    exact binary_locate latitude handler _ old s f (Spot.ofOperand_ne_value paired.destination)
      (Spot.not_both_cell paired.apart)
  | compare f =>
    rw [action] at formed
    obtain ⟨dst, src, w, rfl, paired⟩ := formed
    obtain ⟨_, _, same, first, second⟩ := selected.two
    obtain rfl := Machine.width_eq paired.destination (some src) none none
    rw [Machine.ofSrc_eq (Machine.ne_lea_of_action action (by simp))]
    simp only [operate, action, same, second.isMem, ← Spot.decide_ofOperand, withTwo_eq first second paired]
    rw [location_dst dst (some src), location_src paired.apart]
    exact compare_locate latitude handler _ old s f (Spot.ofOperand_ne_value paired.destination)
      (Spot.not_both_cell paired.apart)
  | shift f =>
    rw [action] at formed
    obtain ⟨dst, count, w, rfl, width, isCount⟩ := formed
    obtain ⟨_, _, same, first, second⟩ := selected.two
    obtain rfl := Machine.width_eq width (some count) none none
    rw [Machine.ofSrc_eq (Machine.ne_lea_of_action action (by simp))]
    simp only [operate, action, same, count?_eq second isCount s old, withOne_eq first width]
    rw [location_dst dst (some count)]
    exact shift_locate latitude handler _ old s f (Spot.ofOperand_ne_value width)

end Guest.Interpreter

end Rehost
