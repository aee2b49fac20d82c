import Rehost.CodeStore
import Rehost.Lowering
import Rehost.Machine.Platform

/-!
# Blocks

A block belongs to a guest address. It is empty until machine code is generated for it from a front end's
draft, and that can then be executed any number of times, until the block is reset.
-/

namespace Rehost

open Guest (Context)

/-- What a front end hands over: instructions, and whether it stands by them. -/
structure Draft where
  instructions : List Guest.Instruction
  complete : Bool := true
  deriving DecidableEq, Repr

/-- A front end that remembers `τ`: what it hands over when it is asked, and what it remembers then. -/
structure FrontEnd (τ : Type) where
  process : τ → Draft × τ

/-- The front end that hands over one draft whenever it is asked. -/
def Draft.frontEnd (draft : Draft) : FrontEnd Unit := ⟨fun memo => (draft, memo)⟩

structure Block where
  address : Word
  pending : Queue := {}
  code : Option (List Byte) := none
  deriving DecidableEq, Repr

namespace Block

def generated (block : Block) : Bool := block.code.isSome

/-- The block in messages. -/
def render (block : Block) : String :=
  "TranslatorUnit \x7b vip: " ++ Text.hex block.address.toNat ++ ", generated: " ++
    toString block.generated ++ ", .. \x7d"

/-- Compiles a draft and installs the code. Nothing is installed unless all goes well, and the queue is empty
afterwards. -/
def install [Linkage] (block : Block) (store : CodeStore) (draft : Draft) : Block × CodeStore × Except Error Unit :=
  let queue := block.pending.clear.scheduleAll draft.instructions
  if !draft.complete then
    ({ block with pending := queue.clear }, store, .error (.abandoned block.address))
  else
    match compile queue with
    | (queue, .error error) => ({ block with pending := queue }, store, .error error)
    | (queue, .ok compiled) =>
      match store.install compiled.code with
      | .error error => ({ block with pending := queue }, store, .error error)
      | .ok store => ({ block with pending := queue, code := some compiled.code }, store, .ok ())

/-- The end of an attempt to generate code. -/
structure Generation (τ : Type) where
  block : Block
  store : CodeStore
  memo : τ
  result : Except Error Unit

/-- Generates code from what a front end hands over. A block that has code does not ask it. -/
def generate [Linkage] {τ : Type} (block : Block) (store : CodeStore) (frontEnd : FrontEnd τ) (memo : τ) :
    Generation τ :=
  if block.generated then ⟨block, store, memo, .error (.alreadyGenerated block.address)⟩
  else
    let (draft, memo) := frontEnd.process memo
    let (block, store, result) := block.install store draft
    ⟨block, store, memo, result⟩

/-- Drops the code of a block. -/
def reset (block : Block) (store : CodeStore) : Block × CodeStore :=
  match block.code with
  | none => (block, store)
  | some code => ({ block with code := none }, store.release code)

/-! ### Execution -/

/-- The end of an execution. -/
structure Execution (σ : Type) where
  context : Context
  memory : σ
  result : Except Error Unit

variable {σ : Type}

/-- What the status word of generated code means, given the fault that the handler left. -/
def conclude (status : BitVec 32) (fault : Option Guest.Fault) : Except Error Unit :=
  if status = Access.served then .ok ()
  else if status = Access.failed then
    .error (.memoryFault (fault.getD
      (.handler "memory bridge reported a fault without details")))
  else .error (.memoryFault (.handler s!"unexpected native status {status.toNat}"))

/-- Runs the code of a block on a context, with a handler for guest memory attached meanwhile. -/
def execute [Linkage] (platform : Machine.Platform) (handler : Guest.Handler σ) (block : Block)
    (context : Context) (memory : σ) : Execution σ :=
  match block.code with
  | none => ⟨context, memory, .error (.notGenerated block.address)⟩
  | some code =>
    let entered := { context with handler := Access.attachedMark }
    match platform.call handler code entered memory with
    | .returned attached state =>
      { context := { state.context with handler := 0 }
        memory := attached.state
        result := conclude ((state.get .rax).setWidth 32) attached.fault }
    | _ => ⟨context, memory, .error (.halted block.address)⟩

end Block

end Rehost
