import Rehost.Proofs.Compilation
import Rehost.Proofs.Fragment

/-!
# Instructions of the program on the machine

An instruction of the program, once its operand in memory is a slot of the context, does on the machine
what its operation does to the scene (`Straight.perform`). It changes no register but its operands, whatever
the state it is executed in (`get_operate`).
-/

namespace Rehost

open Guest (Context)
open Host (Instr Node Operand Formed)

/-! ### Names -/

/-- No operand names the register. -/
def Unnamed (r : Reg) (operands : Slots Operand) : Prop := ∀ operand ∈ operands.operands, ¬ operand.Names r

theorem mem_operands_first {operands : Slots Operand} {operand : Operand} (first : operands.first = some operand) :
    operand ∈ operands.operands :=
  Lowering.mem_operands.mpr (by simp [Slots.toList, first])

theorem mem_operands_second {operands : Slots Operand} {operand : Operand}
    (second : operands.second = some operand) : operand ∈ operands.operands :=
  Lowering.mem_operands.mpr (by simp [Slots.toList, second])

theorem Host.Placed.mem_operands {operands : Slots Operand} {position : Nat} {m : Host.Mem}
    (placed : Host.Placed operands position m) : .mem m ∈ operands.operands :=
  placed.elim (fun here => mem_operands_first here.2) (fun here => mem_operands_second here.2)

theorem Spot.names_ofOperand {operand : Operand} {r : Reg} (named : (Spot.ofOperand operand).Names r) :
    operand.Names r := by
  cases operand with
  | reg q => exact named
  | _ => exact named.elim

/-- A register that a destination names is one that an operand names. -/
theorem Spot.names_ofDst {operands : Slots Operand} {r : Reg} (named : (Spot.ofDst operands).Names r) :
    ∃ operand ∈ operands.operands, operand.Names r := by
  cases first : operands.first with
  | none => simp [Spot.ofDst, first, Spot.Names] at named
  | some operand =>
    simp only [Spot.ofDst, first] at named
    exact ⟨operand, mem_operands_first first, names_ofOperand named⟩

theorem Spot.names_ofSrc {operation : Operation} {regs : RegFile} {operands : Slots Operand} {r : Reg}
    (named : (Spot.ofSrc operation regs operands).Names r) : ∃ operand ∈ operands.operands, operand.Names r := by
  cases second : operands.second with
  | none => simp [Spot.ofSrc, second, Spot.Names] at named
  | some operand =>
    refine ⟨operand, mem_operands_second second, ?_⟩
    cases operand with
    | mem m =>
      simp only [Spot.ofSrc, second] at named
      split at named <;> exact named.elim
    | _ =>
      simp only [Spot.ofSrc, second] at named
      exact names_ofOperand named

/-- The source depends on the registers that its operand names only. -/
theorem Spot.ofSrc_congr {operation : Operation} {one two : RegFile} {operands : Slots Operand}
    (same : ∀ operand ∈ operands.operands, ∀ r, operand.Names r → one.get r = two.get r) :
    Spot.ofSrc operation one operands = Spot.ofSrc operation two operands := by
  cases second : operands.second with
  | none => simp [Spot.ofSrc, second]
  | some operand =>
    cases operand with
    | mem m =>
      have address : m.address one = m.address two :=
        Machine.Straight.address_congr fun r named => same _ (mem_operands_second second) r named
      simp [Spot.ofSrc, second, address]
    | _ => simp [Spot.ofSrc, second]

namespace Machine

variable {σ : Type}

/-- The state after an operation. -/
def State.performed (latitude : Latitude) (operation : Operation) (operands : Slots Operand) (t : State) : State :=
  t.absorb ((t.scene operands.width).apply latitude operation.action (.ofDst operands)
    (.ofSrc operation t.regs operands))

/-- Scenes of states that are alike but for the stack pointer lead to such states. -/
theorem Shows.performed {entry : Word} {t s : State} {stack : List Word} (shows : Shows entry t stack s)
    (latitude : Latitude) (operation : Operation) {operands : Slots Operand} (unnamed : Unnamed .rsp operands) :
    Shows entry (t.performed latitude operation operands) stack (s.performed latitude operation operands) := by
  have source : Spot.ofSrc operation s.regs operands = Spot.ofSrc operation t.regs operands := by
    apply Spot.ofSrc_congr
    intro operand member r named
    exact shows.regs r (by rintro rfl; exact unnamed operand member named)
  have notDst (r : Reg) (named : (Spot.ofDst operands).Names r) : r ≠ .rsp := by
    rintro rfl
    obtain ⟨operand, member, named⟩ := Spot.names_ofDst named
    exact unnamed operand member named
  have notSrc (r : Reg) (named : (Spot.ofSrc operation t.regs operands).Names r) : r ≠ .rsp := by
    rintro rfl
    obtain ⟨operand, member, named⟩ := Spot.names_ofSrc named
    exact unnamed operand member named
  have agree : Scene.Agree (· ≠ Reg.rsp) (BitVec.allOnes 64) (s.scene operands.width) (t.scene operands.width) := by
    refine ⟨fun r other => shows.regs r other, ?_, ?_⟩
    · rw [State.scene, State.scene, State.status, State.status, shows.flags]
      exact Status.Agree.refl _ _
    · simp only [State.scene, shows.context]
  have after := agree.apply latitude operation (Flag.within_allOnes _) notDst notSrc
  have status := after.status.eq ((Flag.within_allOnes _).trans (Flag.within_or_left _ _))
  refine ⟨fun r other => ?_, ?_, ?_, ?_, shows.words, shows.above⟩
  · rw [State.performed, source]
    exact after.regs r other
  · rw [State.performed, source, ← shows.pointer]
    exact Scene.regs_apply latitude _ _ (fun named => notDst _ named rfl) (fun named => notSrc _ named rfl)
  · simp only [State.performed, State.absorb, source, status, shows.flags]
  · simp only [State.performed, State.absorb, source, after.cell, shows.context]

/-- An instruction of the program with every operand in memory at the slot for the value of an access. -/
theorem Straight.perform {env : Env σ} {usage : Usage} {entry : Word} {code : List Node} {t : State}
    {stack : List Word} {post : State → List Word → Prop} {i : Instr} {operation : Operation}
    (opcode : i.opcode = .op operation) (formed : Formed operation i.operands) (unnamed : Unnamed .rsp i.operands)
    (slots : operation ≠ .lea → ∀ m, .mem m ∈ i.operands.operands → m = slotMem usage.base .accessValue m.width)
    (layout : Layout env.contextAddress entry) (points : t.get usage.base = env.contextAddress)
    (notStack : usage.base ≠ .rsp)
    (rest : Straight env usage entry code (t.performed env.latitude operation i.operands) stack post) :
    Straight env usage entry (.instr i :: code) t stack post := by
  refine cons (by rw [opcode]; nofun) fun s shows => ?_
  have pointed : s.get usage.base = env.contextAddress := (shows.regs _ notStack).trans points
  have landed (accesses : operation ≠ .lea) (operand : Operand)
      (present : i.operands.first = some operand ∨ i.operands.second = some operand) :
      Landed env.contextAddress s.regs operand := by
    cases operand with
    | mem m =>
      have same := slots accesses m (present.elim mem_operands_first mem_operands_second)
      rw [same, Landed, address_slotMem .accessValue m.width pointed, place_slot]
    | _ => trivial
  refine ⟨_, _, _, step_op opcode (operate_eq formed landed), confined_of_op opcode fun accesses m member => ?_,
    shows.performed env.latitude operation unnamed, rest⟩
  have allowed : usage.Open .accessValue := trivial
  rw [slots accesses m member]
  exact confined_slotMem layout pointed allowed m.width

/-! ### Registers that are left alone -/

/-- The target is not the register. -/
def Target.Spares (r : Reg) : Target → Prop
  | .reg q => q.reg ≠ r
  | _ => True

section
variable {r : Reg} {s s' : State} {dst src : Target}

theorem get_put? {w : Width} {value : BitVec w.bits} (spares : dst.Spares r) (done : dst.put? s w value = some s') :
    s'.get r = s.get r := by
  cases dst with
  | reg q =>
    simp only [Target.put?, Option.ite_none_right_eq_some] at done
    obtain ⟨_, done⟩ := done
    cases done
    exact RegFile.get_setPart_of_ne _ _ _ _ spares
  | place p width =>
    simp only [Target.put?, Option.ite_none_right_eq_some] at done
    obtain ⟨_, done⟩ := done
    cases done
    cases p <;> rfl
  | value v => cases done

theorem get_unary (spares : dst.Spares r) {f : (n : Nat) → BitVec n → Status → BitVec n × Status}
    (done : unary f dst s = some s') : s'.get r = s.get r := by
  simp only [unary, Option.bind_eq_bind, Option.bind_eq_some_iff] at done
  obtain ⟨w, _, value, _, done⟩ := done
  have kept := get_put? spares done
  exact kept

theorem get_binary (spares : dst.Spares r) {f : (n : Nat) → BitVec n → BitVec n → Status → BitVec n × Status}
    (done : binary f dst src s = some s') : s'.get r = s.get r := by
  simp only [binary, Option.bind_eq_bind, Option.bind_eq_some_iff] at done
  obtain ⟨w, _, a, _, b, _, done⟩ := done
  have kept := get_put? spares done
  exact kept

theorem get_shift (spares : dst.Spares r) {f : (n : Nat) → BitVec n → Nat → Status → BitVec n × Status}
    {count : Nat} (done : shift f dst count s = some s') : s'.get r = s.get r := by
  simp only [shift, Option.bind_eq_bind, Option.bind_eq_some_iff] at done
  obtain ⟨w, _, value, _, done⟩ := done
  have kept := get_put? spares done
  exact kept

theorem get_compare {f : (n : Nat) → BitVec n → BitVec n → Status} (done : compare f dst src s = some s') :
    s'.get r = s.get r := by
  simp only [compare, Option.bind_eq_bind, Option.bind_eq_some_iff] at done
  obtain ⟨w, _, a, _, b, _, done⟩ := done
  cases done
  rfl

theorem get_move (spares : dst.Spares r) (done : move dst src s = some s') : s'.get r = s.get r := by
  simp only [move, Option.bind_eq_bind, Option.bind_eq_some_iff] at done
  obtain ⟨w, _, value, _, done⟩ := done
  exact get_put? spares done

theorem get_swap (spares : dst.Spares r) (srcSpares : src.Spares r) (done : swap dst src s = some s') :
    s'.get r = s.get r := by
  simp only [swap, Option.bind_eq_bind, Option.bind_eq_some_iff] at done
  obtain ⟨w, _, a, _, b, _, between, first, done⟩ := done
  exact (get_put? srcSpares done).trans (get_put? spares first)

end

theorem spares_of_operand {contextAddress : Word} {regs : RegFile} {operand : Operand} {target : Target} {r : Reg}
    (found : Target.ofOperand? contextAddress regs operand = some target)
    (other : ∀ q, operand = .reg q → q.reg ≠ r) : target.Spares r := by
  cases operand with
  | reg q => cases found; exact other q rfl
  | imm v w => cases found; trivial
  | mem m =>
    simp only [Target.ofOperand?, Option.map_eq_some_iff] at found
    obtain ⟨place, _, rfl⟩ := found
    trivial
  | label l => cases found

/-- An operation changes no register that is not an operand itself. -/
theorem get_operate {latitude : Latitude} {contextAddress : Word} {operation : Operation}
    {operands : Slots Operand} {s s' : State} {r : Reg}
    (done : operate latitude contextAddress operation operands s = some s')
    (other : ∀ q, .reg q ∈ operands.operands → q.reg ≠ r) : s'.get r = s.get r := by
  have dst {operand : Operand} (first : operands.first = some operand) (q : Host.RegOperand)
      (same : operand = .reg q) : q.reg ≠ r := other q (mem_operands_first (first.trans (congrArg some same)))
  have src {operand : Operand} (second : operands.second = some operand) (q : Host.RegOperand)
      (same : operand = .reg q) : q.reg ≠ r := other q (mem_operands_second (second.trans (congrArg some same)))
  unfold operate at done
  split at done
  next => cases done; rfl
  next =>
    have spares : (Target.reg _).Spares r := dst rfl _ rfl
    exact get_put? spares done
  next =>
    simp only [Option.bind_eq_bind, Option.bind_eq_some_iff] at done
    obtain ⟨target, found, source, _, done⟩ := done
    exact get_move (spares_of_operand found (dst rfl)) done
  next =>
    simp only [Option.bind_eq_bind, Option.bind_eq_some_iff] at done
    obtain ⟨target, found, source, given, done⟩ := done
    exact get_swap (spares_of_operand found (dst rfl))
      (spares_of_operand given (src rfl)) done
  next =>
    simp only [Option.bind_eq_bind, Option.bind_eq_some_iff] at done
    obtain ⟨target, found, done⟩ := done
    exact get_unary (spares_of_operand found (dst rfl)) done
  next =>
    simp only [Option.bind_eq_bind, Option.bind_eq_some_iff] at done
    obtain ⟨target, found, source, _, done⟩ := done
    exact get_binary (spares_of_operand found (dst rfl)) done
  next =>
    simp only [Option.bind_eq_bind, Option.bind_eq_some_iff] at done
    obtain ⟨target, found, source, _, done⟩ := done
    exact get_compare done
  next =>
    simp only [Option.bind_eq_bind, Option.bind_eq_some_iff] at done
    obtain ⟨target, found, count, _, done⟩ := done
    exact get_shift (spares_of_operand found (dst rfl)) done
  next => cases done

end Machine

end Rehost
