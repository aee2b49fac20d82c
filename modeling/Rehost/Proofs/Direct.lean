import Rehost.Machine.Step
import Rehost.Proofs.Compilation

/-!
# Direct execution of a body

Host instructions of a body can be executed one after the other without the code around them: registers and flags are
those of a state, and memory is reached through a handler. Instructions selected for a program do the same in this way
as the program does (`run_eq_of_selectAll`).
-/

namespace Rehost.Host.Direct

open Guest (Handler)
open Guest.Interpreter (Location State Stop)
open Selection (Selected SelectedSlots)

variable {σ : Type}

/-- Where an operand of width `w` has its value; an immediate has any width. -/
def location? (regs : RegFile) (w : Width) : Operand → Option Location
  | .reg r => if r.width = w then some (.reg r.reg r.high) else none
  | .mem m => if m.width = w then some (.memory (m.address regs)) else none
  | .imm v _ => some (.value v)
  | .label _ => none

/-- Acts on one location, at the width of the operand. -/
def withOne (dst : Operand) (s : State σ) (act : Width → Location → State σ → Except (Stop σ) (State σ)) :
    Except (Stop σ) (State σ) :=
  let located := do
    let w ← dst.width?
    return (w, ← location? s.context.gp w dst)
  match located with
  | some (w, dst) => act w dst s
  | none => .error .undefined

/-- Acts on two locations, at the width of the first operand. -/
def withTwo (dst src : Operand) (s : State σ)
    (act : Width → Location → Location → State σ → Except (Stop σ) (State σ)) : Except (Stop σ) (State σ) :=
  let located := do
    let w ← dst.width?
    return (w, ← location? s.context.gp w dst, ← location? s.context.gp w src)
  match located with
  | some (w, dst, src) => act w dst src s
  | none => .error .undefined

open Guest.Interpreter in
/-- An operation on operands. -/
def operate (latitude : Latitude) (handler : Handler σ) (operation : Operation) (operands : Slots Operand)
    (s : State σ) : Except (Stop σ) (State σ) :=
  match operation.action, operands with
  | .idle, ⟨none, none, none, none⟩ => .ok s
  | .address, ⟨some (.reg r), some (.mem m), none, none⟩ =>
    let address := m.address s.context.gp
    Direct.withOne (.reg r) s fun w dst s => store handler w (address.setWidth w.bits) s dst
  | .move, ⟨some dst, some src, none, none⟩ => Direct.withTwo dst src s (move handler)
  | .swap, ⟨some dst, some src, none, none⟩ => Direct.withTwo dst src s (swap handler)
  | .unary f, ⟨some dst, none, none, none⟩ => Direct.withOne dst s (unary handler f)
  | .binary f, ⟨some dst, some src, none, none⟩ => Direct.withTwo dst src s (binary handler (f latitude))
  | .compare f, ⟨some dst, some src, none, none⟩ =>
    Direct.withTwo dst src s (compare handler (f (latitude.comparing src.isMem)))
  | .shift f, ⟨some dst, some count, none, none⟩ =>
    match Machine.count? s.context.gp count with
    | some count => Direct.withOne dst s (unary handler fun n value status => f latitude n value count status)
    | none => .error .undefined
  | _, _ => .error .undefined

/-- One instruction. -/
def execute (latitude : Latitude) (handler : Handler σ) (i : Instr) (s : State σ) : Except (Stop σ) (State σ) :=
  match i.opcode with
  | .op operation => operate latitude handler operation i.operands s
  | _ => .error .undefined

/-- Instructions one after the other. -/
def run (latitude : Latitude) (handler : Handler σ) : List Instr → State σ → Except (Stop σ) (State σ)
  | [], s => .ok s
  | i :: rest, s => do run latitude handler rest (← execute latitude handler i s)

/-! ### Operands that an operation has -/

/-- The operands on which an operation is defined at most. -/
inductive Shape (operation : Operation) : Slots Operand → Prop where
  | idle (action : operation.action = .idle) : Shape operation {}
  | address (action : operation.action = .address) (r : RegOperand) (m : Mem) :
      Shape operation { first := some (.reg r), second := some (.mem m) }
  | move (action : operation.action = .move) (dst src : Operand) :
      Shape operation { first := some dst, second := some src }
  | swap (action : operation.action = .swap) (dst src : Operand) :
      Shape operation { first := some dst, second := some src }
  | unary {f : (n : Nat) → BitVec n → Status → BitVec n × Status} (action : operation.action = .unary f)
      (dst : Operand) : Shape operation { first := some dst }
  | binary {f : Latitude → (n : Nat) → BitVec n → BitVec n → Status → BitVec n × Status}
      (action : operation.action = .binary f) (dst src : Operand) :
      Shape operation { first := some dst, second := some src }
  | compare {f : Latitude → (n : Nat) → BitVec n → BitVec n → Status} (action : operation.action = .compare f)
      (dst src : Operand) : Shape operation { first := some dst, second := some src }
  | shift {f : Latitude → (n : Nat) → BitVec n → Nat → Status → BitVec n × Status}
      (action : operation.action = .shift f) (dst count : Operand) :
      Shape operation { first := some dst, second := some count }

theorem shape_or_undefined (latitude : Latitude) (handler : Handler σ) (operation : Operation)
    (operands : Slots Operand) :
    Shape operation operands ∨ ∀ s, operate latitude handler operation operands s = .error .undefined := by
  unfold operate
  split
  next action => exact .inl (.idle action)
  next action => exact .inl (.address action _ _)
  next action => exact .inl (.move action _ _)
  next action => exact .inl (.swap action _ _)
  next action => exact .inl (.unary action _)
  next action => exact .inl (.binary action _ _)
  next action => exact .inl (.compare action _ _)
  next action => exact .inl (.shift action _ _)
  next => exact .inr fun _ => rfl

/-! ### Selected instructions -/

section
variable {g : Guest.Operand} {h : Operand} (selected : Selected g h)
include selected

theorem location?_of_selected (regs : RegFile) (w : Width) :
    Guest.Interpreter.location? regs w g = location? regs w h := by
  cases selected with
  | reg width free => simp [Guest.Interpreter.location?, location?, width]
  | imm v width => rfl
  | mem width address => simp [Guest.Interpreter.location?, location?, width, address]

theorem count?_of_selected (regs : RegFile) : Guest.Interpreter.count? regs g = Machine.count? regs h := by
  cases selected with
  | @reg r size high w width free =>
    simp only [Guest.Interpreter.count?, Machine.count?, width, RegOperand.mk.injEq, Option.some.injEq]
    split
    next named => rw [named.1]
    next => rfl
  | imm v width => rfl
  | mem width => rfl

theorem withOne_of_selected (s : State σ) (act : Width → Location → State σ → Except (Stop σ) (State σ)) :
    Guest.Interpreter.withOne g s act = withOne h s act := by
  cases width : h.width? with
  | none => simp [Guest.Interpreter.withOne, withOne, selected.destinationWidth?, width]
  | some w =>
    cases located : location? s.context.gp w h <;>
      simp [Guest.Interpreter.withOne, withOne, selected.destinationWidth?, width, location?_of_selected selected,
        located]

theorem withTwo_of_selected {g' : Guest.Operand} {h' : Operand} (second : Selected g' h') (s : State σ)
    (act : Width → Location → Location → State σ → Except (Stop σ) (State σ)) :
    Guest.Interpreter.withTwo g g' s act = withTwo h h' s act := by
  cases width : h.width? with
  | none => simp [Guest.Interpreter.withTwo, withTwo, selected.destinationWidth?, width]
  | some w =>
    cases dst : location? s.context.gp w h <;> cases src : location? s.context.gp w h' <;>
      simp [Guest.Interpreter.withTwo, withTwo, selected.destinationWidth?, width, location?_of_selected selected,
        location?_of_selected second, dst, src]

end

section
variable {latitude : Latitude} {handler : Handler σ} {operation : Operation} {s : State σ}

/-- No operation has more than two operands. -/
theorem operate_of_more {operands : Slots Operand} (more : operands.third ≠ none ∨ operands.fourth ≠ none) :
    operate latitude handler operation operands s = .error .undefined := by
  unfold operate
  split <;> first | rfl | simp at more

theorem interpret_of_more {operands : Slots Guest.Operand} (more : operands.third ≠ none ∨ operands.fourth ≠ none) :
    Guest.Interpreter.operate latitude handler operation operands s = .error .undefined := by
  unfold Guest.Interpreter.operate
  split <;> first | rfl | simp at more

end

theorem operate_of_selected {g : Slots Guest.Operand} {h : Slots Operand} (selected : SelectedSlots g h)
    (latitude : Latitude) (handler : Handler σ) (operation : Operation) (s : State σ) :
    Guest.Interpreter.operate latitude handler operation g s = operate latitude handler operation h s := by
  obtain ⟨first, second, third, fourth⟩ := selected
  obtain ⟨_, _, _, _⟩ := g
  obtain ⟨_, _, _, _⟩ := h
  simp only at first second third fourth
  cases third with
  | some third => rw [operate_of_more (.inl (by simp)), interpret_of_more (.inl (by simp))]
  | none =>
    cases fourth with
    | some fourth => rw [operate_of_more (.inr (by simp)), interpret_of_more (.inr (by simp))]
    | none =>
      cases first with
      | none =>
        cases second <;> cases action : operation.action <;> simp only [Guest.Interpreter.operate, operate, action]
      | some first =>
        cases second with
        | none =>
          cases action : operation.action with
          | unary f => simp only [Guest.Interpreter.operate, operate, action, withOne_of_selected first]
          | _ => simp only [Guest.Interpreter.operate, operate, action]
        | @some _ count second =>
          cases action : operation.action with
          | move | swap | binary f =>
            simp only [Guest.Interpreter.operate, operate, action, withTwo_of_selected first second]
          | compare f =>
            simp only [Guest.Interpreter.operate, operate, action, second.isMem, withTwo_of_selected first second]
          | shift f =>
            cases counted : Machine.count? s.context.gp count <;>
              simp only [Guest.Interpreter.operate, operate, action, count?_of_selected second, counted,
                withOne_of_selected first]
          | address =>
            cases first with
            | reg width free =>
              cases second with
              | mem widthMem address =>
                simp only [Guest.Interpreter.operate, operate, action, Guest.Interpreter.loadAddress, address,
                  withOne_of_selected (.reg width free)]
              | _ => simp only [Guest.Interpreter.operate, operate, action]
            | _ => simp only [Guest.Interpreter.operate, operate, action]
          | _ => simp only [Guest.Interpreter.operate, operate, action]

/-- A body selected for a program does what the program does. -/
theorem run_eq_of_selectAll {program : List Guest.Instruction} {body : List Instr}
    (selected : Queue.selectAll program = (body, .ok ())) (latitude : Latitude) (handler : Handler σ) (s : State σ) :
    run latitude handler body s = Guest.Interpreter.run latitude handler program s := by
  induction program generalizing body s with
  | nil =>
    cases selected
    rfl
  | cons i rest ih =>
    obtain ⟨empty, _⟩ | ⟨_, _, j, others, same, rfl, here, there⟩ := Lowering.selectAll_ok selected
    · cases empty
    · cases same
      obtain ⟨operation, mnemonic, opcode, slots⟩ := Selection.selected_of_select here
      have first : execute latitude handler j s = Guest.Interpreter.execute latitude handler i s := by
        simp only [execute, Guest.Interpreter.execute, opcode, mnemonic]
        exact (operate_of_selected slots latitude handler operation s).symm
      simp only [run, Guest.Interpreter.run, first]
      cases Guest.Interpreter.execute latitude handler i s with
      | error stop => rfl
      | ok t => exact ih there t

end Rehost.Host.Direct
