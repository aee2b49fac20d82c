import Rehost.Proofs.Straight

/-!
# Fragments of generated code

What the pieces of generated code do that call nothing: registers go to their slots and come back
(`storeRegisters`, `loadRegisters`), flags go to the stack and come back, the entry leaves the saved
registers on the stack and the context pointer in the base register, and the exit undoes it.
-/

namespace Rehost

open Guest (Context)
open Host (Instr Node Operand)

/-! ### Many registers at once -/

namespace RegFile

/-- The registers of a list set to values of their own. -/
@[irreducible] def setAll (file : RegFile) (rs : List Reg) (value : Reg → Word) : RegFile :=
  .ofFn fun r => if r ∈ rs then value r else file.get r

@[simp] theorem get_setAll (file : RegFile) (rs : List Reg) (value : Reg → Word) (r : Reg) [Decidable (r ∈ rs)] :
    (file.setAll rs value).get r = if r ∈ rs then value r else file.get r := by
  rw [setAll, get_ofFn]
  congr

@[simp] theorem setAll_nil (file : RegFile) (value : Reg → Word) : file.setAll [] value = file :=
  ext_get fun r => by simp

theorem setAll_cons (file : RegFile) (r : Reg) (rs : List Reg) (value : Reg → Word) :
    file.setAll (r :: rs) value = (file.set r (value r)).setAll rs value := by
  apply ext_get
  intro q
  by_cases here : r = q
  · subst here; simp
  · simp [get_set_of_ne _ _ here, Ne.symm here]

end RegFile

namespace Machine

variable {σ : Type}

namespace State

/-- The context with the registers that a body reads in their slots. -/
def spilled (usage : Usage) (t : State) : Context :=
  { t.context with gp := t.context.gp.setAll usage.read.toList t.get }

/-- The state with the registers that a body reads taken from their slots. -/
def reloaded (usage : Usage) (t : State) : State :=
  { t with regs := t.regs.setAll usage.read.toList t.context.gp.get }

theorem get_gp_spilled (usage : Usage) (t : State) (r : Reg) :
    (t.spilled usage).gp.get r = if r ∈ usage.read then t.get r else t.context.gp.get r := by
  simp [spilled]

@[simp] theorem flags_spilled (usage : Usage) (t : State) : (t.spilled usage).flags = t.context.flags := rfl

theorem get_reloaded (usage : Usage) (t : State) (r : Reg) :
    (t.reloaded usage).get r = if r ∈ usage.read then t.context.gp.get r else t.get r := by
  simp [reloaded, get]

theorem set_get_self (t : State) (r : Reg) : t.set r (t.get r) = t := by
  have same : t.regs.set r (t.regs.get r) = t.regs :=
    RegFile.ext_get fun q => by by_cases here : r = q <;> simp [RegFile.get_set, here]
  simp [set, get, same]

end State

namespace Straight

variable {env : Env σ} {usage : Usage} {entry : Word} {code : List Node} {t : State}
  {stack : List Word} {value : Word} {post : State → List Word → Prop}

theorem label {l : Host.Label} (rest : Straight env usage entry code t stack post) :
    Straight env usage entry (.label l :: code) t stack post := by
  intro world s shows
  obtain ⟨way, s', t', stack', passed, shown, ended, quiet⟩ := rest world s shows
  exact ⟨way, s', t', stack', .label passed, shown, ended, quiet⟩

section
variable (layout : Layout env.contextAddress entry) (fit : usage.Fit)
include layout

theorem pushAll {rs : List Reg} (other : ∀ r ∈ rs, r ≠ .rsp) (room : stack.length + rs.length ≤ frameWords)
    (rest : Straight env usage entry code t ((rs.map t.get).reverse ++ stack) post) :
    Straight env usage entry (rs.map (fun r => Lowering.push (.full r)) ++ code) t stack post := by
  induction rs generalizing stack with
  | nil => exact rest
  | cons r rs ih =>
    simp only [List.length_cons] at room
    refine push layout (other r (List.mem_cons_self ..)) (by omega) ?_
    refine ih (fun q member => other q (List.mem_cons_of_mem _ member)) (by simp only [List.length_cons]; omega) ?_
    simpa using rest

theorem popAll {rs : List Reg} {saved : Reg → Word} (other : ∀ r ∈ rs, r ≠ .rsp)
    (small : stack.length + rs.length ≤ frameWords)
    (rest : Straight env usage entry code { t with regs := t.regs.setAll rs saved } stack post) :
    Straight env usage entry (rs.map (fun r => Lowering.pop (.full r)) ++ code) t (rs.map saved ++ stack) post := by
  induction rs generalizing t with
  | nil => simpa using rest
  | cons r rs ih =>
    simp only [List.length_cons] at small
    refine pop layout (other r (List.mem_cons_self ..)) (by simp; omega) ?_
    refine ih (fun q member => other q (List.mem_cons_of_mem _ member)) (by omega) ?_
    rw [RegFile.setAll_cons] at rest
    exact rest

include fit

theorem stores {rs : List Reg} (points : t.get usage.base = env.contextAddress) (within : ∀ r ∈ rs, r ∈ usage.read)
    (rest : Straight env usage entry code
      { t with context := { t.context with gp := t.context.gp.setAll rs t.get } } stack post) :
    Straight env usage entry
      (rs.map (fun r => Lowering.op .mov (Lowering.slot usage (.gp r)) (.full r)) ++ code) t stack post := by
  induction rs generalizing t with
  | nil => simpa using rest
  | cons r rs ih =>
    have member := within r (List.mem_cons_self ..)
    have allowed : usage.Open (.gp r) := member
    refine save layout points fit.notStack allowed (by rintro rfl; exact fit.stackUnnamed member) ?_
    refine ih points (fun q later => within q (List.mem_cons_of_mem _ later)) ?_
    rw [RegFile.setAll_cons] at rest
    exact rest

theorem loads {rs : List Reg} (points : t.get usage.base = env.contextAddress) (within : ∀ r ∈ rs, r ∈ usage.read)
    (rest : Straight env usage entry code { t with regs := t.regs.setAll rs t.context.gp.get } stack post) :
    Straight env usage entry
      (rs.map (fun r => Lowering.op .mov (.full r) (Lowering.slot usage (.gp r))) ++ code) t stack post := by
  induction rs generalizing t with
  | nil => simpa using rest
  | cons r rs ih =>
    have member := within r (List.mem_cons_self ..)
    have allowed : usage.Open (.gp r) := member
    refine load layout points fit.notStack allowed (by rintro rfl; exact fit.stackUnnamed member) ?_
    refine ih ?_ (fun q later => within q (List.mem_cons_of_mem _ later)) ?_
    · rw [State.get_set_of_ne _ _ (by rintro rfl; exact fit.unnamed member)]
      exact points
    · rw [RegFile.setAll_cons] at rest
      exact rest

variable (points : t.get usage.base = env.contextAddress)
include points

theorem storeRegisters (rest : Straight env usage entry code { t with context := t.spilled usage } stack post) :
    Straight env usage entry (Lowering.storeRegisters usage ++ code) t stack post :=
  stores layout fit points (fun _ member => RegSet.mem_toList.mp member) rest

theorem loadRegisters (rest : Straight env usage entry code (t.reloaded usage) stack post) :
    Straight env usage entry (Lowering.loadRegisters usage ++ code) t stack post :=
  loads layout fit points (fun _ member => RegSet.mem_toList.mp member) rest

theorem syncOut (room : stack.length < frameWords)
    (rest : Straight env usage entry code { t with context := t.spilled usage } (t.flags :: stack) post) :
    Straight env usage entry (Lowering.syncOut usage ++ code) t stack post :=
  pushfq layout room (storeRegisters layout fit points rest)

theorem syncIn (small : stack.length < frameWords)
    (rest : Straight env usage entry code { t.reloaded usage with flags := value } stack post) :
    Straight env usage entry (Lowering.syncIn usage ++ code) t (value :: stack) post := by
  rw [Lowering.syncIn, List.append_assoc]
  exact loadRegisters layout fit points (popfq layout small rest)

theorem seedFlags (room : stack.length < frameWords)
    (rest : Straight env usage entry code { t with flags := t.context.flags &&& Flag.status } stack post) :
    Straight env usage entry (Lowering.seedFlags usage ++ code) t stack post :=
  pushSlot layout points fit.notStack trivial room
    (andTop layout room fun _ => popfq layout room rest)

end

end Straight

/-! ### Entry -/

namespace State

/-- The state in which a body is entered. -/
def entered (usage : Usage) (t : State) : State :=
  let pointed := t.set usage.base (t.get Host.Convention.firstArgument)
  let seeded :=
    if Lowering.seedsFlags usage then { pointed with flags := t.context.flags &&& Flag.status } else pointed
  seeded.reloaded usage

end State

/-- The words that the entry leaves on the stack. -/
def savedWords (usage : Usage) (t : State) : List Word := (usage.saved.toList.map t.get).reverse

theorem length_savedWords (usage : Usage) (t : State) : (savedWords usage t).length = usage.saved.size := by
  simp [savedWords, RegSet.size]

theorem ne_rsp_of_mem_saved {usage : Usage} {r : Reg} (member : r ∈ usage.saved) : r ≠ .rsp := by
  rintro rfl
  exact absurd (RegSet.mem_inter.mp member).2 (by decide)

theorem Straight.entry {env : Env σ} {usage : Usage} {top : Word} {code : List Node} {t : State}
    {post : State → List Word → Prop} (layout : Layout env.contextAddress top) (fit : usage.Fit)
    (argument : t.get Host.Convention.firstArgument = env.contextAddress)
    (rest : Straight env usage top code (t.entered usage) (savedWords usage t) post) :
    Straight env usage top (Lowering.entry usage ++ code) t [] post := by
  have few := usage.size_saved_le
  have room : (savedWords usage t).length < frameWords := by
    rw [length_savedWords]
    simp only [frameWords]
    omega
  have points : (t.set usage.base (t.get Host.Convention.firstArgument)).get usage.base = env.contextAddress := by
    rw [State.get_set_self, argument]
  -- Flags and registers are taken from the context once the base register points there.
  have taken : Straight env usage top
      ((if Lowering.seedsFlags usage then Lowering.seedFlags usage else []) ++
        (Lowering.loadRegisters usage ++ code))
      (t.set usage.base (t.get Host.Convention.firstArgument)) (savedWords usage t) post := by
    by_cases seeds : Lowering.seedsFlags usage = true
    · rw [if_pos seeds]
      refine seedFlags layout fit points room (loadRegisters layout fit points ?_)
      simp only [State.entered, if_pos seeds] at rest
      exact rest
    · rw [if_neg seeds]
      refine loadRegisters layout fit points ?_
      simp only [State.entered, if_neg seeds] at rest
      exact rest
  simp only [Lowering.entry, List.append_assoc]
  refine pushAll layout (fun r member => ne_rsp_of_mem_saved (RegSet.mem_toList.mp member)) ?_ ?_
  · rw [length_savedWords] at room
    simp only [List.length_nil, Nat.zero_add]
    exact Nat.le_of_lt room
  · rw [List.append_nil]
    by_cases here : Host.Convention.firstArgument = usage.base
    · rw [if_pos here]
      rw [here, State.set_get_self] at taken
      exact taken
    · rw [if_neg here]
      exact mov fit.notStack (by decide) taken

/-! ### Exit -/

namespace State

/-- The context when a body has ended: registers in their slots, and the flags if the body changes any. -/
def finished (usage : Usage) (t : State) : Context :=
  { t.spilled usage with
    flags := if usage.flagsOut = 0 then t.context.flags
      else t.context.flags &&& ~~~Flag.status ||| t.flags &&& Flag.status }

end State

theorem scratch_ne_base (usage : Usage) : Lowering.scratch usage ≠ usage.base := by
  unfold Lowering.scratch
  split
  next same => rw [same]; decide
  next other => exact Ne.symm other

theorem scratch_cases (usage : Usage) : Lowering.scratch usage = .rax ∨ Lowering.scratch usage = .rcx := by
  unfold Lowering.scratch
  split
  · exact .inr rfl
  · exact .inl rfl

theorem scratch_ne_rsp (usage : Usage) : Lowering.scratch usage ≠ .rsp := by
  rcases scratch_cases usage with same | same <;> rw [same] <;> decide

theorem scratch_not_saved (usage : Usage) : Lowering.scratch usage ∉ Host.Convention.calleeSaved := by
  rcases scratch_cases usage with same | same <;> rw [same] <;> decide

/-- Registers that functions preserve are the same. -/
def SameSaved (t t' : State) : Prop := ∀ r ∈ Host.Convention.calleeSaved, t'.get r = t.get r

namespace Straight

variable {env : Env σ} {usage : Usage} {top : Word} {code : List Node} {t : State} {stack : List Word}
  {post : State → List Word → Prop} (layout : Layout env.contextAddress top)
include layout

/-- The flags on top of the stack go to the context; only the scratch register changes. -/
theorem storeFlags (fit : usage.Fit) (points : t.get usage.base = env.contextAddress)
    (room : stack.length < frameWords) {value : Word}
    (rest : ∀ t', t'.context = { t.context with
          flags := t.context.flags &&& ~~~Flag.status ||| value &&& Flag.status } →
      t'.cells = t.cells → (∀ r, r ≠ Lowering.scratch usage → t'.get r = t.get r) →
      Straight env usage top code t' stack post) :
    Straight env usage top (Lowering.storeFlags usage ++ code) t (value :: stack) post := by
  have notStack := scratch_ne_rsp usage
  have notBase := scratch_ne_base usage
  have allowed : usage.Open .flags := trivial
  have pointed (v w : Word) : (((t.set (Lowering.scratch usage) v)).set (Lowering.scratch usage) w).get
      usage.base = env.contextAddress := by
    rw [State.get_set_of_ne _ _ notBase, State.get_set_of_ne _ _ notBase, points]
  refine pop layout notStack room (andConstant notStack fun _ => ?_)
  refine andSlot layout (by exact pointed _ _) fit.notStack allowed fun _ => ?_
  refine orSlot layout (by exact pointed _ _) fit.notStack allowed notStack fun _ => rest _ ?_ rfl ?_
  · simp [State.set, State.get, Context.set, Context.get]
  · intro r other
    simp [State.set, State.get, RegFile.get_set_of_ne _ _ other.symm]

/-- The exit up to the epilog. -/
theorem exit (fit : usage.Fit) (points : t.get usage.base = env.contextAddress) (room : stack.length < frameWords)
    (rest : ∀ t', t'.context = t.finished usage → t'.cells = t.cells → SameSaved t t' → t'.get .rax = 0 →
      Straight env usage top code t' stack post) :
    Straight env usage top
      ((if usage.flagsOut = 0 then Lowering.storeRegisters usage
        else Lowering.syncOut usage ++ Lowering.storeFlags usage) ++
        Lowering.op .xor (.half .rax) (.half .rax) :: code) t stack post := by
  have kept {r : Reg} (member : r ∈ Host.Convention.calleeSaved) : Reg.rax ≠ r := by
    rintro rfl
    exact absurd member (by decide)
  by_cases clean : usage.flagsOut = 0
  · rw [if_pos clean]
    refine storeRegisters layout fit points (clear (by decide) fun flags => rest _ ?_ rfl ?_ ?_)
    · simp only [State.finished, if_pos clean]
      rfl
    · exact fun r member => State.get_set_of_ne _ _ (kept member)
    · exact State.get_set_self ..
  · rw [if_neg clean, List.append_assoc]
    refine syncOut layout fit points room ?_
    refine storeFlags (t := { t with context := t.spilled usage }) layout fit points room
      fun t' context cells same => ?_
    simp only [State.flags_spilled] at context
    refine clear (by decide) fun flags => rest _ ?_ cells ?_ ?_
    · simp only [State.finished, if_neg clean]
      exact context
    · intro r member
      have other : r ≠ Lowering.scratch usage := by
        rintro rfl
        exact scratch_not_saved usage member
      change (t'.set .rax 0).get r = t.get r
      rw [State.get_set_of_ne t' 0 (kept member)]
      exact same r other
    · exact State.get_set_self ..

end Straight

end Machine

end Rehost
