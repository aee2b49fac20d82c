import Rehost.Block

/-!
# Attempts at generation

What a draft compiles to depends on the draft alone (`Draft.compiled`), and an attempt at generation either adds that
to the block and to the store or leaves both as they were (`install_eq`). The queue of a block that can be reached is
always empty (`pending_of_reached`). So a failed attempt leaves no trace, and a block that has only seen failed
attempts takes the next one as a fresh block does, which fills it (`generate_all_or_nothing`).
-/

namespace Rehost

/-- The store after code was installed in it. -/
def CodeStore.add (store : CodeStore) (code : List Byte) : CodeStore where
  live := store.live + 1
  codeBytes := store.codeBytes + code.length
  installedTotal := store.installedTotal + 1

section
variable [Linkage]

/-- What the draft of a block at an address compiles to. -/
def Draft.compiled (draft : Draft) (address : Word) : Except Error Compiled :=
  if draft.complete then
    match (compile ⟨draft.instructions⟩).2 with
    | .error error => .error error
    | .ok compiled => if compiled.code.isEmpty then .error .emptyCode else .ok compiled
  else .error (.abandoned address)

/-- The address only matters for what is said about a failure. -/
theorem Draft.toOption_compiled (draft : Draft) (address other : Word) :
    (draft.compiled address).toOption = (draft.compiled other).toOption := by
  unfold Draft.compiled
  split <;> rfl

@[simp] theorem compile_queue (queue : Queue) : (compile queue).1 = {} := by
  unfold compile
  simp only [Queue.emit]
  split <;> rfl

namespace Block

/-- An attempt adds all of what a draft compiles to, or nothing. -/
theorem install_eq (block : Block) (store : CodeStore) (draft : Draft) :
    block.install store draft =
      match draft.compiled block.address with
      | .error error => ({ block with pending := {} }, store, .error error)
      | .ok compiled =>
        ({ block with pending := {}, code := some compiled.code }, store.add compiled.code, .ok ()) := by
  have scheduled : block.pending.clear.scheduleAll draft.instructions = ⟨draft.instructions⟩ := rfl
  have emptied := compile_queue ⟨draft.instructions⟩
  unfold install Draft.compiled
  cases complete : draft.complete with
  | false => rfl
  | true =>
    simp only [scheduled, Bool.not_true, Bool.false_eq_true, if_false, if_true]
    generalize compile ⟨draft.instructions⟩ = outcome at emptied ⊢
    obtain ⟨queue, result⟩ := outcome
    obtain rfl : queue = {} := emptied
    cases result with
    | error error => rfl
    | ok compiled =>
      by_cases empty : compiled.code.isEmpty = true
      · simp [CodeStore.install, empty]
      · simp [CodeStore.install, empty, CodeStore.add]

section
variable {τ : Type} {block : Block} {store : CodeStore} {frontEnd : FrontEnd τ} {memo : τ}

theorem generate_of_generated (generated : block.generated = true) :
    block.generate store frontEnd memo = ⟨block, store, memo, .error (.alreadyGenerated block.address)⟩ := by
  rw [generate, if_pos generated]

theorem generate_of_empty (empty : block.code = none) :
    block.generate store frontEnd memo =
      match (frontEnd.process memo).1.compiled block.address with
      | .error error => ⟨{ block with pending := {} }, store, (frontEnd.process memo).2, .error error⟩
      | .ok compiled =>
        ⟨{ block with pending := {}, code := some compiled.code }, store.add compiled.code,
          (frontEnd.process memo).2, .ok ()⟩ := by
  have unfilled : ¬block.generated = true := by simp [generated, empty]
  rw [generate, if_neg unfilled]
  simp only [install_eq]
  cases (frontEnd.process memo).1.compiled block.address <;> rfl

end

/-! ### Blocks that can be reached -/

/-- A block as attempts at generation and resets leave it, whatever the store held at each of them. -/
inductive Reached : Block → Prop
  | fresh (address : Word) : Reached { address }
  | generate {τ : Type} {block : Block} (before : Reached block) (store : CodeStore) (frontEnd : FrontEnd τ)
      (memo : τ) : Reached (block.generate store frontEnd memo).block
  | reset {block : Block} (before : Reached block) (store : CodeStore) : Reached (block.reset store).1

theorem pending_of_generate {τ : Type} {block : Block} (empty : block.pending = {}) (store : CodeStore)
    (frontEnd : FrontEnd τ) (memo : τ) : (block.generate store frontEnd memo).block.pending = {} := by
  cases code : block.code with
  | some code =>
    rw [generate_of_generated (by simp [generated, code])]
    exact empty
  | none =>
    rw [generate_of_empty code]
    split <;> rfl

omit [Linkage] in
theorem pending_of_reset (block : Block) (store : CodeStore) : (block.reset store).1.pending = block.pending := by
  unfold reset
  split <;> rfl

theorem pending_of_reached {block : Block} (reached : block.Reached) : block.pending = {} := by
  induction reached with
  | fresh address => rfl
  | generate before store frontEnd memo empty => exact pending_of_generate empty store frontEnd memo
  | @reset block before store empty => rw [pending_of_reset, empty]

/-! ### Attempts that fail -/

/-- The block after attempts at generation that all failed, whatever the store held at each of them. -/
inductive Retried (block : Block) : Block → Prop
  | start : Retried block block
  | again {τ : Type} {last : Block} (before : Retried block last) (store : CodeStore) (frontEnd : FrontEnd τ) (memo : τ)
      {error : Error} (failed : (last.generate store frontEnd memo).result = .error error) :
    Retried block (last.generate store frontEnd memo).block

/-- A failed attempt leaves a block as it was, but for its queue, and the store as it was. -/
theorem generate_of_failed {τ : Type} {block : Block} {store : CodeStore} {frontEnd : FrontEnd τ} {memo : τ}
    {error : Error} (failed : (block.generate store frontEnd memo).result = .error error) :
    (block.generate store frontEnd memo).block.address = block.address ∧
      (block.generate store frontEnd memo).block.code = block.code ∧
      (block.generate store frontEnd memo).store = store := by
  cases code : block.code with
  | some code =>
    rw [generate_of_generated (by simp [generated, code])]
    exact ⟨rfl, code, rfl⟩
  | none =>
    rw [generate_of_empty code] at failed ⊢
    split at failed
    · exact ⟨rfl, code, rfl⟩
    · cases failed

theorem compiled_of_ok {draft : Draft} {address : Word} {compiled : Compiled}
    (ok : draft.compiled address = .ok compiled) :
    (compile ⟨draft.instructions⟩).2 = .ok compiled ∧ compiled.code ≠ [] := by
  unfold Draft.compiled at ok
  split at ok
  · split at ok
    · cases ok
    · split at ok
      · cases ok
      next found filled =>
        cases ok
        exact ⟨found, by simpa using filled⟩
  · cases ok

/-- The end of an attempt that put compiled code into a block. -/
structure Filled {τ : Type} (store : CodeStore) (compiled : Compiled) (generation : Generation τ) : Prop where
  code : generation.block.code = some compiled.code
  nonempty : compiled.code ≠ []
  queue : generation.block.pending = {}
  live : generation.store.live = store.live + 1
  codeBytes : generation.store.codeBytes = store.codeBytes + compiled.code.length
  installedTotal : generation.store.installedTotal = store.installedTotal + 1

/-- An attempt that succeeds has found the block empty, and puts in what the draft compiles to. -/
theorem generate_of_succeeded {τ : Type} {block : Block} {store : CodeStore} {frontEnd : FrontEnd τ} {memo : τ}
    (succeeded : (block.generate store frontEnd memo).result = .ok ()) :
    block.code = none ∧ ∃ compiled, (compile ⟨(frontEnd.process memo).1.instructions⟩).2 = .ok compiled ∧
      Filled store compiled (block.generate store frontEnd memo) := by
  cases code : block.code with
  | some code =>
    rw [generate_of_generated (by simp [generated, code])] at succeeded
    cases succeeded
  | none =>
    rw [generate_of_empty code] at succeeded ⊢
    split at succeeded
    · cases succeeded
    next compiled ok =>
      obtain ⟨found, nonempty⟩ := compiled_of_ok ok
      exact ⟨rfl, compiled, found, rfl, nonempty, rfl, rfl, rfl, rfl⟩

theorem code_of_retried {block last : Block} (retried : block.Retried last) : last.code = block.code := by
  induction retried with
  | start => rfl
  | again before store frontEnd memo failed same => rw [(generate_of_failed failed).2.1, same]

/-- What generation makes of an empty block only depends on the draft. -/
theorem outcome_of_empty {τ : Type} {block other : Block} (empty : block.code = none)
    (otherEmpty : other.code = none) (store otherStore : CodeStore) (frontEnd : FrontEnd τ) (memo : τ) :
    (block.generate store frontEnd memo).block.code = (other.generate otherStore frontEnd memo).block.code ∧
      ((block.generate store frontEnd memo).result = .ok () ↔
        (other.generate otherStore frontEnd memo).result = .ok ()) := by
  have same := (frontEnd.process memo).1.toOption_compiled block.address other.address
  rw [generate_of_empty empty, generate_of_empty otherEmpty]
  generalize (frontEnd.process memo).1.compiled block.address = first at same ⊢
  generalize (frontEnd.process memo).1.compiled other.address = second at same ⊢
  cases first <;> cases second <;> simp_all [Except.toOption]

/-- Generation is all or nothing. A failed attempt leaves code and counters as they were and the queue empty; one that
succeeds puts what the draft compiles to into a block that was empty, and raises the counters by it; after any number of
failed attempts on an empty block the next one does what it does on a fresh block; and a block that has code does not
ask its front end. -/
theorem generate_all_or_nothing {block : Block} (reached : block.Reached) :
    (∀ {τ : Type} (store : CodeStore) (frontEnd : FrontEnd τ) (memo : τ) {error : Error},
      (block.generate store frontEnd memo).result = .error error →
        (block.generate store frontEnd memo).block.code = block.code ∧
        (block.generate store frontEnd memo).block.generated = block.generated ∧
        (block.generate store frontEnd memo).store = store ∧
        (block.generate store frontEnd memo).block.pending = {}) ∧
    (∀ {τ : Type} (store : CodeStore) (frontEnd : FrontEnd τ) (memo : τ),
      (block.generate store frontEnd memo).result = .ok () →
        block.code = none ∧ ∃ compiled, (compile ⟨(frontEnd.process memo).1.instructions⟩).2 = .ok compiled ∧
          Filled store compiled (block.generate store frontEnd memo)) ∧
    (block.code = none → ∀ {last : Block}, block.Retried last →
      ∀ {τ : Type} (store freshStore : CodeStore) (address : Word) (frontEnd : FrontEnd τ) (memo : τ),
        let fresh : Block := { address }
        ((last.generate store frontEnd memo).result = .ok () ↔
          (fresh.generate freshStore frontEnd memo).result = .ok ()) ∧
        (last.generate store frontEnd memo).block.code = (fresh.generate freshStore frontEnd memo).block.code) ∧
    (block.generated = true → ∀ {τ : Type} (store : CodeStore) (frontEnd : FrontEnd τ) (memo : τ),
      block.generate store frontEnd memo = ⟨block, store, memo, .error (.alreadyGenerated block.address)⟩) := by
  refine ⟨?_, ?_, ?_, ?_⟩
  · intro τ store frontEnd memo error failed
    obtain ⟨-, code, kept⟩ := generate_of_failed failed
    refine ⟨code, ?_, kept, pending_of_generate (pending_of_reached reached) store frontEnd memo⟩
    rw [generated, code, generated]
  · intro τ store frontEnd memo succeeded
    exact generate_of_succeeded succeeded
  · intro empty last retried τ store freshStore address frontEnd memo fresh
    have stillEmpty : last.code = none := by rw [code_of_retried retried, empty]
    have freshEmpty : fresh.code = none := rfl
    obtain ⟨code, result⟩ := outcome_of_empty stillEmpty freshEmpty store freshStore frontEnd memo
    exact ⟨result, code⟩
  · intro generated τ store frontEnd memo
    exact generate_of_generated generated

end Block

end

/-! ### An attempt that is given up and one that is not -/

namespace Block

attribute [local instance] Linkage.standard

/-- A draft that its front end does not stand by at first. -/
def sampleDraft (complete : Bool) : Draft := { instructions := [{ mnemonic := .op .nop }], complete }

theorem generate_all_or_nothing_sample :
    let block : Block := { address := 0x1000 }
    let first := block.generate {} (sampleDraft false).frontEnd ()
    let second := first.block.generate first.store (sampleDraft true).frontEnd ()
    first.result = .error (.abandoned 0x1000) ∧ first.block.code = none ∧ first.store = {} ∧
      first.block.pending = {} ∧
      second.result = .ok () ∧
      second.block.code = (block.generate {} (sampleDraft true).frontEnd ()).block.code ∧
      ∃ compiled, Filled {} compiled second := by
  intro block first second
  obtain ⟨nothing, -, retry, -⟩ := generate_all_or_nothing (.fresh 0x1000)
  have failed : first.result = .error (.abandoned 0x1000) := rfl
  obtain ⟨code, -, store, pending⟩ := nothing {} (sampleDraft false).frontEnd () failed
  have retried : block.Retried first.block := .again .start {} (sampleDraft false).frontEnd () failed
  obtain ⟨-, all, -, -⟩ := generate_all_or_nothing (.generate (.fresh 0x1000) {} (sampleDraft false).frontEnd ())
  have succeeded : second.result = .ok () := rfl
  obtain ⟨-, compiled, -, filled⟩ := all {} (sampleDraft true).frontEnd () succeeded
  exact ⟨failed, code, store, pending, succeeded,
    (retry rfl retried first.store {} 0x1000 (sampleDraft true).frontEnd ()).2, compiled, filled⟩

end Block

end Rehost
