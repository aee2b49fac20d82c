import Rehost.Cache
import Rehost.Guest.FlatMemory
import Rehost.Log
import Rehost.Text.Elapsed

/-!
# The trial

A self-check of the engine: the same small block is compiled for a number of addresses, executed over
and over in rotation on freshly seeded registers and memory, and the last result compared with what the
block is to compute. Every part tells what it does; whatever fails, the events before it have been told.
-/

namespace Rehost.Trial

open Guest (Context FlatMemory)

def guestBase : Word := 0x100000

def guestSize : Nat := 0x1000

/-- Where the block's word of data lies. -/
def dataAddress : Word := guestBase + 0x40

def firstAddress : Word := 0x401000

/-- The distance between blocks. -/
def stride : Nat := 0x10

def minuend : BitVec 32 := 0x0badbabe

def subtrahend : BitVec 32 := 0xdeadbeef

def dataWord : BitVec 32 := 0xf00ba7c2

/-- The low half of a guest register. -/
def half (r : Reg) : Guest.Operand := .reg (.general r) .s32 false

/-- The word of data, addressed by `rdx`. -/
def data : Guest.Operand := .mem { base := some (.general .rdx) } .s32

/-- `sub eax, ecx; mov ebx, [rdx]; mov [rdx], eax`. -/
def draft : Draft where
  instructions :=
    [{ mnemonic := .op .sub, operands := { first := half .rax, second := half .rcx } },
     { mnemonic := .op .mov, operands := { first := half .rbx, second := data } },
     { mnemonic := .op .mov, operands := { first := data, second := half .rax } }]

/-- The addresses of the blocks. -/
def addresses (units : Nat) : List Word :=
  (List.range units).map fun i => firstAddress + BitVec.ofNat 64 (i * stride)

/-- What can go wrong in a trial. -/
inductive Failure where
  | engine (error : Error)
  | dataOutside
  | missingBlock
  | mismatch
  deriving DecidableEq, Repr

def Failure.message : Failure → String
  | engine error => error.message
  | dataOutside => "data word lies outside guest memory"
  | missingBlock => "unit missing from cache"
  | mismatch => "translated block produced unexpected state"

/-! ### Computations that tell what they do -/

/-- The events of a computation up to its end, and how it ended. -/
structure Logged (α : Type) where
  events : List Event := []
  result : Except Failure α

namespace Logged

/-- Ends with what was told so far. -/
def fail {α : Type} (failure : Failure) : Logged α := { result := .error failure }

def tell (events : List Event) : Logged Unit := { events, result := .ok () }

/-- What a failure leaves untold is lost, and what was told before it is kept. -/
protected def bind {α β : Type} (first : Logged α) (next : α → Logged β) : Logged β :=
  match first.result with
  | .error failure => { events := first.events, result := .error failure }
  | .ok a => { events := first.events ++ (next a).events, result := (next a).result }

instance : Monad Logged where
  pure a := { result := .ok a }
  bind := Logged.bind

end Logged

/-! ### Preparation -/

/-- What is told about compiling instructions for an address: how far it got. -/
def compilation [Linkage] (address : Word) (instructions : List Guest.Instruction) : List Event :=
  match Queue.selectAll instructions with
  | (_, .error _) => []
  | (instrs, .ok ()) =>
    match Usage.ofBody instrs with
    | .error _ => []
    | .ok usage =>
      .analysed usage ::
        match compileInstrs instrs with
        | .error _ => []
        | .ok compiled => [.compiled address instructions.length compiled.instructions usage compiled.code.length]

/-- Creates the block of an address, unless there is one. -/
def createBlock (cache : Cache) (address : Word) : Logged Cache := do
  if (cache.find? address).isNone then Logged.tell [.created address]
  return cache.create address

/-- Generates the code of the block of an address. A block that has code refuses without a word. -/
def generateBlock [Linkage] (cache : Cache) (address : Word) : Logged Cache := do
  match cache.generate address draft with
  | (_, none) => Logged.fail .missingBlock
  | (_, some (.error (.alreadyGenerated address))) => Logged.fail (.engine (.alreadyGenerated address))
  | (_, some (.error error)) =>
    Logged.tell (compilation address draft.instructions ++ [.failed address error])
    Logged.fail (.engine error)
  | (cache, some (.ok ())) =>
    let code := (cache.find? address).bind Block.code
    Logged.tell (compilation address draft.instructions ++ [.generated address (code.elim 0 List.length)])
    return cache

/-- Creates the blocks of addresses and generates their code. -/
def addBlocks [Linkage] : List Word → Cache → Logged Cache
  | [], cache => return cache
  | address :: rest, cache => do
    let cache ← createBlock cache address
    let cache ← generateBlock cache address
    addBlocks rest cache

/-- A trial under way. -/
structure Session where
  cache : Cache
  addresses : List Word
  context : Context := {}
  memory : FlatMemory := .zeros guestBase guestSize
  next : Nat := 0
  total : Nat := 0

/-- Generates every block. -/
def prepare [Linkage] (units : Nat) : Logged Session := do
  let cache ← addBlocks (addresses units) {}
  Logged.tell [.installed cache.store.live cache.store.codeBytes]
  return { cache, addresses := addresses units }

/-! ### Execution -/

/-- Sets registers and memory to the block's input. -/
def seed (context : Context) (memory : FlatMemory) : Except Failure (Context × FlatMemory) :=
  match memory.write32 dataAddress dataWord with
  | none => .error .dataOutside
  | some memory =>
    let context := (context.setLow32 .rax minuend).setLow32 .rcx subtrahend
    .ok (context.set (.gp .rdx) dataAddress, memory)

/-- One execution, of the block whose turn it is. -/
def iterate [Linkage] (platform : Machine.Platform) (session : Session) : Logged Session := do
  let (context, memory) ← { result := seed session.context session.memory }
  match session.addresses[session.next]?.bind session.cache.find? with
  | none => Logged.fail .missingBlock
  | some block =>
    if block.generated then Logged.tell [.executing block.address]
    let execution := block.execute platform FlatMemory.handler context memory
    match execution.result with
    | .error error => Logged.fail (.engine error)
    | .ok () =>
      return { session with
        context := execution.context
        memory := execution.memory
        next := (session.next + 1) % session.addresses.length
        total := session.total + 1 }

/-- A number of executions, each on a platform of its own. -/
def iterateTimes [Linkage] (platforms : Nat → Machine.Platform) : Nat → Session → Logged Session
  | 0, session => return session
  | times + 1, session => do
    let session ← iterate (platforms session.total) session
    iterateTimes platforms times session

/-! ### Result -/

/-- Whether registers and memory hold what the block computes. -/
def verify (context : Context) (memory : FlatMemory) : Bool :=
  context.low32 .rax = minuend - subtrahend && context.low32 .rbx = dataWord &&
    memory.read32 dataAddress = some (minuend - subtrahend)

/-- What the last line says about the time that all executions took. -/
def timing (total nanos : Nat) : String :=
  s!" in {Text.elapsed nanos} ({Text.perSecond total nanos}/s)"

/-- Compares the result and releases every block. -/
def finish (session : Session) (timing : Option String) : Logged Unit := do
  let ok := verify session.context session.memory
  let cache := session.cache.releaseAll
  Logged.tell [.finished session.total timing ok, .releasing session.cache.size]
  if cache.store.live ≠ 0 then Logged.tell [.outlived]
  if !ok then Logged.fail .mismatch

/-- A whole trial with a number of executions. -/
def run [Linkage] (platforms : Nat → Machine.Platform) (units executions : Nat) : Logged Unit := do
  let session ← prepare units
  let session ← iterateTimes platforms executions session
  finish session none

end Rehost.Trial
