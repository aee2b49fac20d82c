import Rehost.Command
import Rehost.Proofs.Accounting
import Rehost.Proofs.FlatMemory
import Rehost.Proofs.Locality
import Rehost.Proofs.Restart

/-!
# The trial succeeds

A trial with blocks whose addresses do not wrap around ends well, however often it executes them
(`always_verifies`). Preparation fills the cache address by address (`generate_filled`, `addBlocks_filled`). What the
block computes is known from direct execution (`run_draft`) and only depends on the seeded registers and the data word,
so each execution ends in a verified state whatever was left by the ones before (`iterate_of_ready`), and so do any
number of them (`iterateTimes_of_ready`).
-/

namespace Rehost.Trial

open Guest (Context FlatMemory Interpreter.run Interpreter.execute)
open Guest.Interpreter (Location State Stop destinationWidth? fetch location? move store withTwo)
open Machine (Layout Platform)

/-! ### Addresses -/

section
variable {units : Nat} (below : firstAddress.toNat + stride * (units - 1) < 0x1_0000_0000_0000_0000)
include below

theorem toNat_address {i : Nat} (inside : i < units) :
    (firstAddress + BitVec.ofNat 64 (i * stride)).toNat = firstAddress.toNat + i * stride := by
  have last : i * stride ≤ stride * (units - 1) := by
    rw [Nat.mul_comm]
    exact Nat.mul_le_mul_left stride (by omega)
  rw [BitVec.toNat_add, BitVec.toNat_ofNat]
  omega

/-- No two blocks of a trial have the same address. -/
theorem nodup_addresses : (addresses units).Nodup := by
  refine List.pairwise_map.mpr (List.Pairwise.imp_of_mem ?_ (List.nodup_range (n := units)))
  intro i j first second other same
  rw [List.mem_range] at first second
  have equal := congrArg BitVec.toNat same
  rw [toNat_address below first, toNat_address below second] at equal
  exact other (Nat.eq_of_mul_eq_mul_right (by decide) (Nat.add_left_cancel equal))

end

theorem length_addresses (units : Nat) : (addresses units).length = units := by simp [addresses]

/-! ### Computations that tell what they do -/

namespace Logged

variable {α β : Type}

@[simp] theorem pure_eq (a : α) : (pure a : Logged α) = ⟨[], .ok a⟩ := rfl

@[simp] theorem bind_ok (events : List Rehost.Event) (a : α) (next : α → Logged β) :
    (Logged.mk events (.ok a) >>= next) = ⟨events ++ (next a).events, (next a).result⟩ := rfl

end Logged

/-! ### Preparation -/

/-- The cache with a generated block for each of the addresses. -/
def filled (compiled : Compiled) (done : List Word) : Cache where
  blocks := done.map fun address => (address, { address, code := some compiled.code })
  store :=
    { live := done.length
      codeBytes := done.length * compiled.code.length
      installedTotal := done.length }

/-- The session with which executions begin. -/
def opening (compiled : Compiled) (units : Nat) : Session :=
  { cache := filled compiled (addresses units), addresses := addresses units }

section
variable {compiled : Compiled} {done : List Word} {address : Word}

theorem find?_filled_of_mem (member : address ∈ done) :
    (filled compiled done).find? address = some { address, code := some compiled.code } := by
  simp only [filled, Cache.find?]
  induction done with
  | nil => cases member
  | cons other rest later =>
    rw [List.map_cons, List.lookup_cons]
    by_cases here : address = other
    · simp [here]
    · have skipped : (address == other) = false := beq_false_of_ne here
      simp only [skipped]
      exact later ((List.mem_cons.mp member).resolve_left here)

theorem find?_filled_of_not_mem (absent : address ∉ done) : (filled compiled done).find? address = none := by
  refine List.lookup_eq_none_iff.mpr fun entry member => ?_
  obtain ⟨other, present, rfl⟩ := List.mem_map.mp member
  refine bne_iff_ne.mpr ?_
  rintro rfl
  exact absent present

theorem accounts_filled (distinct : done.Nodup) : (filled compiled done).Accounts done.length := by
  constructor
  case keyed =>
    intro address block member
    obtain ⟨_, _, same⟩ := List.mem_map.mp member
    cases same
    rfl
  case distinct => simpa [filled, Function.comp_def] using distinct
  case idle =>
    intro block member
    obtain ⟨entry, present, rfl⟩ := List.mem_map.mp member
    obtain ⟨_, _, rfl⟩ := List.mem_map.mp present
    rfl
  case live => simp [filled, Cache.contents, List.countP_map, Function.comp_def, Block.generated]
  case codeBytes =>
    simp [filled, Cache.contents, List.flatMap_map, Block.installed, List.length_flatMap, List.map_const']
  case installed => rfl

/-- What is told about a block that is added. -/
def addedEvents [Linkage] (compiled : Compiled) (address : Word) : List Rehost.Event :=
  .created address :: (compilation address draft.instructions ++ [.generated address compiled.code.length])

variable [Linkage] (drafted : ∀ address, draft.compiled address = .ok compiled)
include drafted

/-- The block of a new address gets the code of the draft. -/
theorem generate_filled (fresh : address ∉ done) :
    ((filled compiled done).create address).generate address draft =
      (filled compiled (done ++ [address]), some (.ok ())) := by
  let block : Block := { address, code := some compiled.code }
  have absent : (filled compiled done).find? address = none := find?_filled_of_not_mem fresh
  have found := Cache.find?_create_of_none absent
  have store : ((filled compiled done).create address).store = (filled compiled done).store := by
    simp [Cache.create, absent]
  have around :
      ((filled compiled done).create address).Around address { address } (filled compiled done).blocks [] := by
    refine ⟨by simp [Cache.create, absent], ?_, by simp⟩
    rintro entry member rfl
    obtain ⟨_, present, rfl⟩ := List.mem_map.mp member
    exact fresh present
  have replaced : (((filled compiled done).create address).replace address block).blocks =
      (filled compiled (done ++ [address])).blocks := by
    rw [(around.replace block).blocks]
    simp [filled, block]
  have added : (filled compiled done).store.add compiled.code = (filled compiled (done ++ [address])).store := by
    simp [filled, CodeStore.add, Nat.succ_mul]
  simp only [Cache.generate, found, Block.generate_of_empty, Draft.frontEnd, drafted, store, added]
  rw [show Block.mk address {} (some compiled.code) = block from rfl, replaced]

theorem addBlocks_filled {rest : List Word} (distinct : (done ++ rest).Nodup) :
    addBlocks rest (filled compiled done) =
      ⟨rest.flatMap (addedEvents compiled), .ok (filled compiled (done ++ rest))⟩ := by
  induction rest generalizing done with
  | nil => simp [addBlocks]
  | cons address rest later =>
    -- Each address is new when its turn comes, so its block has no code yet.
    have fresh : address ∉ done := by
      intro member
      exact (List.nodup_append.mp distinct).2.2 address member address (by simp) rfl
    have next : ((done ++ [address]) ++ rest).Nodup := by simpa using distinct
    have created : createBlock (filled compiled done) address =
        ⟨[.created address], .ok ((filled compiled done).create address)⟩ := by
      simp [createBlock, find?_filled_of_not_mem fresh, Logged.tell]
    have found : (filled compiled (done ++ [address])).find? address = some { address, code := some compiled.code } :=
      find?_filled_of_mem (by simp)
    have generated : generateBlock ((filled compiled done).create address) address =
        ⟨compilation address draft.instructions ++ [.generated address compiled.code.length],
          .ok (filled compiled (done ++ [address]))⟩ := by
      simp [generateBlock, generate_filled drafted fresh, found, Logged.tell]
    simp [addBlocks, created, generated, later next, addedEvents]

/-- Preparation generates every block. -/
theorem prepare_eq {units : Nat} (distinct : (addresses units).Nodup) :
    prepare units = ⟨(addresses units).flatMap (addedEvents compiled) ++
      [.installed units (units * compiled.code.length)], .ok (opening compiled units)⟩ := by
  have start : ({} : Cache) = filled compiled [] := by simp [filled]
  have added := @addBlocks_filled compiled [] _ drafted (addresses units) distinct
  rw [prepare, start, added]
  simp [Logged.tell, opening, filled, length_addresses]

end

/-- What is selected for the draft of a trial. -/
def draftBody : List Host.Instr := (Queue.selectAll draft.instructions).1

/-- What the body uses, with the base register that is chosen for it. -/
def draftUsage : Usage :=
  { Footprint.ofBody draftBody with base := (Footprint.ofBody draftBody).base?.getD .rax }

/-- The draft of a trial compiles, at every address to the same. -/
theorem draft_compiles [Linkage] : ∃ compiled, (compile ⟨draft.instructions⟩).2 = .ok compiled ∧
    ∀ address, draft.compiled address = .ok compiled := by
  have selected : Queue.selectAll draft.instructions = (draftBody, .ok ()) := by rfl
  have found : (Footprint.ofBody draftBody).base? = some draftUsage.base := by decide +kernel
  have used : Usage.ofBody draftBody = .ok draftUsage := Usage.ofBody_of_base? found
  -- Where the functions lie makes no difference to whether the code that calls them has an encoding.
  have each : ∀ i ∈ draftBody, i.memories.length ≤ 1 ∧
      (Host.Encoding.piece (Lowering.carried draftUsage i)).isOk = true := by
    decide +kernel
  have short (nodes : List Host.Node) (lowered : Lowering.function draftUsage draftBody = .ok nodes) :
      Host.codeSize nodes < 0x80000000 := by
    have size := Lowering.codeSize_function_le lowered
    have three : draftBody.length = 3 := rfl
    omega
  obtain ⟨compiled, ok⟩ := (Lowering.compileInstrs_ok_iff used (plain_of_selectAll selected) short).mpr
    fun i member => ⟨fun _ => (each i member).1, exists_of_isOk (each i member).2⟩
  rw [← compile_of_selectAll selected] at ok
  obtain ⟨_, _, accepted⟩ := accepted_of_compile ok
  have nonempty : compiled.code.isEmpty = false := by simpa using Lowering.code_ne_nil_of_accepted accepted
  have complete : draft.complete = true := rfl
  exact ⟨compiled, ok, fun address => by simp [Draft.compiled, complete, ok, nonempty]⟩

/-! ### The draft -/

/-- `sub eax, ecx`. -/
def subtract : Guest.Instruction := { mnemonic := .op .sub, operands := { first := half .rax, second := half .rcx } }

/-- `mov ebx, [rdx]`. -/
def load : Guest.Instruction := { mnemonic := .op .mov, operands := { first := half .rbx, second := data } }

/-- `mov [rdx], eax`. -/
def save : Guest.Instruction := { mnemonic := .op .mov, operands := { first := data, second := half .rax } }

section
variable {latitude : Latitude} {context : Context} {memory : FlatMemory} {start : Nat}

theorem execute_subtract : Interpreter.execute latitude FlatMemory.handler subtract ⟨context, memory⟩ =
    let outcome := Operation.difference (context.low32 .rax) (context.low32 .rcx) false
    .ok ⟨{ context with
      flags := Status.replace context.flags outcome.2
      gp := context.gp.set .rax (outcome.1.setWidth 64) }, memory⟩ :=
  rfl

theorem location_half (regs : RegFile) (r : Reg) : location? regs .b32 (half r) = some (.reg r false) := rfl

theorem location_data (regs : RegFile) : location? regs .b32 data = some (.memory (regs.get .rdx)) := by
  simp [location?, data, Guest.Size.width?, Guest.Size.resolve, Guest.Interpreter.address?,
    Guest.Interpreter.addressPart?, bind]

/-- Operands of 32 bits whose locations are known. -/
theorem withTwo_located {dst src : Guest.Operand} {one two : Location} (width : destinationWidth? dst = some .b32)
    (first : location? context.gp .b32 dst = some one) (second : location? context.gp .b32 src = some two)
    (act : Width → Location → Location → State FlatMemory → Except (Stop FlatMemory) (State FlatMemory)) :
    withTwo dst src ⟨context, memory⟩ act = act .b32 one two ⟨context, memory⟩ := by
  simp [withTwo, width, first, second]

variable (located : memory.locate (context.gp.get .rdx) 4 = .ok start)
include located

theorem execute_load :
    Interpreter.execute latitude FlatMemory.handler load ⟨context, memory⟩ =
      .ok ⟨{ context with
        gp := context.gp.set .rbx ((BitVec.ofNat 32 (ofBytes (memory.slice start 4).toList)).setWidth 64) }, memory⟩ := by
  show withTwo (half .rbx) data ⟨context, memory⟩ (move FlatMemory.handler) = _
  rw [withTwo_located rfl (location_half _ _) (location_data _)]
  simp only [move, fetch, Width.bytes, FlatMemory.handler_read_of_located located]
  rfl

theorem execute_save :
    Interpreter.execute latitude FlatMemory.handler save ⟨context, memory⟩ =
      .ok ⟨context, memory.splice start (toBytes (context.low32 .rax) 4)⟩ := by
  show withTwo data (half .rax) ⟨context, memory⟩ (move FlatMemory.handler) = _
  have written : FlatMemory.handler.write memory (context.gp.get .rdx)
      (toBytes (context.gp.part .rax false .b32) Width.b32.bytes) =
        (memory.splice start (toBytes (context.low32 .rax) 4), .ok ()) :=
    FlatMemory.handler_write_of_located located
  rw [withTwo_located rfl (location_data _) (location_half _ _)]
  simp only [move, fetch, store, bind, Except.bind, written]

/-- The draft computes a difference, and exchanges it for the word in memory. -/
theorem run_draft : ∃ g, Interpreter.run latitude FlatMemory.handler draft.instructions ⟨context, memory⟩ = .ok g ∧
    g.context.low32 .rax = context.low32 .rax - context.low32 .rcx ∧
    g.context.low32 .rbx = BitVec.ofNat 32 (ofBytes (memory.slice start 4).toList) ∧
    g.memory = memory.splice start (toBytes (context.low32 .rax - context.low32 .rcx) 4) := by
  -- The contexts after the first and the second instruction; the third only writes memory.
  let outcome := Operation.difference (context.low32 .rax) (context.low32 .rcx) false
  have difference : outcome.1 = context.low32 .rax - context.low32 .rcx := by simp [outcome, Operation.difference]
  let first : Context := { context with
    flags := Status.replace context.flags outcome.2
    gp := context.gp.set .rax (outcome.1.setWidth 64) }
  let second : Context := { first with
    gp := first.gp.set .rbx ((BitVec.ofNat 32 (ofBytes (memory.slice start 4).toList)).setWidth 64) }
  have subtracted : Interpreter.execute latitude FlatMemory.handler subtract ⟨context, memory⟩ = .ok ⟨first, memory⟩ :=
    execute_subtract
  have pointer : first.gp.get .rdx = context.gp.get .rdx := RegFile.get_set_of_ne _ _ (by decide)
  have loaded : Interpreter.execute latitude FlatMemory.handler load ⟨first, memory⟩ = .ok ⟨second, memory⟩ :=
    execute_load (by rw [pointer, located])
  have kept : second.gp.get .rdx = first.gp.get .rdx := RegFile.get_set_of_ne _ _ (by decide)
  have saved : Interpreter.execute latitude FlatMemory.handler save ⟨second, memory⟩ =
      .ok ⟨second, memory.splice start (toBytes (second.low32 .rax) 4)⟩ :=
    execute_save (by rw [kept, pointer, located])
  have result : second.low32 .rax = context.low32 .rax - context.low32 .rcx := by
    have other : second.gp.get .rax = first.gp.get .rax := RegFile.get_set_of_ne _ _ (by decide)
    rw [Context.low32, other, ← difference]
    simp [first]
  refine ⟨⟨second, memory.splice start (toBytes (second.low32 .rax) 4)⟩, ?_, result, ?_, by rw [result]⟩
  · have listed : draft.instructions = [subtract, load, save] := rfl
    simp only [listed, Interpreter.run, subtracted, loaded, saved, bind, Except.bind]
  · simp [Context.low32, second]

end

/-! ### Executions -/

/-- Guest memory where a trial has it, whatever its bytes are. -/
structure Mapped (memory : FlatMemory) : Prop where
  base : memory.base = guestBase
  length : memory.bytes.length = guestSize

section
variable {memory : FlatMemory} (mapped : Mapped memory)
include mapped

theorem start?_data : memory.start? dataAddress 4 = some 0x40 := by
  rw [FlatMemory.start?_eq (by rw [mapped.length]; decide), mapped.base, mapped.length]
  rfl

theorem locate_data : memory.locate dataAddress 4 = .ok 0x40 := by
  have supported : Guest.isAccessSize 4 = true := rfl
  simp [FlatMemory.locate, supported, start?_data mapped]

theorem mapped_splice (value : BitVec 32) : Mapped (memory.splice 0x40 (toBytes value 4)) := by
  refine ⟨mapped.base, ?_⟩
  rw [FlatMemory.length_splice, mapped.length]
  rw [length_toBytes, mapped.length]
  decide

/-- The word of data after it was set. -/
theorem word_splice (value : BitVec 32) :
    BitVec.ofNat 32 (ofBytes ((memory.splice 0x40 (toBytes value 4)).slice 0x40 4).toList) = value := by
  have bytes : ((memory.splice 0x40 (toBytes value 4)).slice 0x40 4).toList = toBytes value 4 :=
    FlatMemory.toList_slice_splice (by rw [length_toBytes, mapped.length]; decide)
  rw [bytes]
  exact (ofNat_ofBytes_toBytes value 4).trans (BitVec.setWidth_eq value)

theorem read32_splice (value : BitVec 32) :
    (memory.splice 0x40 (toBytes value 4)).read32 dataAddress = some value := by
  rw [FlatMemory.read32, start?_data (mapped_splice mapped value), Option.map_some, word_splice mapped]

end

/-- The context of an execution, with the input of the block. -/
def seeded (context : Context) : Context :=
  ((context.setLow32 .rax minuend).setLow32 .rcx subtrahend).set (.gp .rdx) dataAddress

theorem seed_eq {memory : FlatMemory} (mapped : Mapped memory) (context : Context) :
    seed context memory = .ok (seeded context, memory.splice 0x40 (toBytes dataWord 4)) := by
  simp [seed, FlatMemory.write32, start?_data mapped, seeded]

theorem seeded_registers (context : Context) :
    (seeded context).low32 .rax = minuend ∧ (seeded context).low32 .rcx = subtrahend ∧
      (seeded context).gp.get .rdx = dataAddress := by
  simp [seeded, Context.setLow32, Context.set, Context.low32, RegFile.get_set, Reg.rax, Reg.rcx, Reg.rdx]

/-- A session between executions. Nothing is known of its registers, and of its memory only where it is. -/
structure Ready (compiled : Compiled) (units : Nat) (session : Session) : Prop where
  cache : session.cache = filled compiled (addresses units)
  addresses : session.addresses = addresses units
  next : session.next < units
  mapped : Mapped session.memory

theorem ready_opening (compiled : Compiled) {units : Nat} (positive : 1 ≤ units) :
    Ready compiled units (opening compiled units) :=
  ⟨rfl, rfl, positive, rfl, List.length_replicate⟩

theorem lookup_of_ready {compiled : Compiled} {units : Nat} {session : Session} (ready : Ready compiled units session) :
    ∃ block, session.addresses[session.next]?.bind session.cache.find? = some block ∧
      block.code = some compiled.code := by
  have short : session.next < (addresses units).length := by
    rw [length_addresses]
    exact ready.next
  refine ⟨{ address := (addresses units)[session.next], code := some compiled.code }, ?_, rfl⟩
  rw [ready.addresses, ready.cache, List.getElem?_eq_getElem short]
  exact find?_filled_of_mem (List.getElem_mem short)

section
variable [Linkage] {compiled : Compiled} (ok : (compile ⟨draft.instructions⟩).2 = .ok compiled)
include ok

/-- What an execution on seeded input leaves is right. -/
theorem execute_seeded {platform : Platform} (layout : Layout platform.contextAddress platform.stackPointer)
    {block : Block} (installed : block.code = some compiled.code) {memory : FlatMemory} (mapped : Mapped memory)
    (context : Context) :
    let execution := block.execute platform FlatMemory.handler (seeded context)
      (memory.splice 0x40 (toBytes dataWord 4))
    execution.result = .ok () ∧ verify execution.context execution.memory = true ∧ Mapped execution.memory := by
  intro execution
  have seeds := mapped_splice mapped dataWord
  obtain ⟨eax, ecx, pointer⟩ := seeded_registers context
  have located : (memory.splice 0x40 (toBytes dataWord 4)).locate ((seeded context).gp.get .rdx) 4 = .ok 0x40 := by
    rw [pointer]
    exact locate_data seeds
  have started : (Block.entry (seeded context) (memory.splice 0x40 (toBytes dataWord 4))).context.low32 =
      (seeded context).low32 := rfl
  obtain ⟨g, ran, difference, loaded, written⟩ :=
    @run_draft platform.latitude (Block.entry (seeded context) (memory.splice 0x40 (toBytes dataWord 4))).context _ 0x40
      located
  obtain ⟨result, _, gp, left⟩ := leaves_of_run ok installed layout ran
  have low (r : Reg) : execution.context.low32 r = g.context.low32 r := by rw [Context.low32, gp, Context.low32]
  rw [started, eax, ecx] at difference written
  rw [word_splice mapped] at loaded
  rw [← left] at written
  refine ⟨result, ?_, written ▸ mapped_splice seeds _⟩
  have stored : execution.memory.read32 dataAddress = some (minuend - subtrahend) := written ▸ read32_splice seeds _
  simp [verify, low, difference, loaded, stored]

/-- One execution ends well and leaves a session for the next. -/
theorem iterate_of_ready {platform : Platform} (layout : Layout platform.contextAddress platform.stackPointer)
    {units : Nat} {session : Session} (ready : Ready compiled units session) :
    ∃ after events, iterate platform session = ⟨events, .ok after⟩ ∧ Ready compiled units after ∧
      after.total = session.total + 1 ∧ verify after.context after.memory = true := by
  obtain ⟨block, found, installed⟩ := lookup_of_ready ready
  obtain ⟨result, verified, mapped⟩ := execute_seeded ok layout installed ready.mapped session.context
  have turn : (session.next + 1) % session.addresses.length < units := by
    have positive := Nat.zero_lt_of_lt ready.next
    rw [ready.addresses, length_addresses]
    exact Nat.mod_lt _ positive
  have generated : block.generated = true := by simp [Block.generated, installed]
  simp only [iterate, seed_eq ready.mapped, found, generated, if_true, result, Logged.tell, Logged.bind_ok,
    Logged.pure_eq]
  exact ⟨_, _, rfl, ⟨ready.cache, ready.addresses, turn, mapped⟩, rfl, verified⟩

/-- So do any number of executions. -/
theorem iterateTimes_of_ready {platforms : Nat → Platform}
    (layouts : ∀ n, Layout (platforms n).contextAddress (platforms n).stackPointer) {units : Nat} (times : Nat)
    {session : Session} (ready : Ready compiled units session) :
    ∃ last events, iterateTimes platforms times session = ⟨events, .ok last⟩ ∧ Ready compiled units last ∧
      last.total = session.total + times ∧ (1 ≤ times → verify last.context last.memory = true) := by
  induction times generalizing session with
  | zero => exact ⟨session, [], rfl, ready, rfl, fun none => absurd none (by decide)⟩
  | succ times later =>
    obtain ⟨next, events, first, ready, counted, verified⟩ := iterate_of_ready ok (layouts session.total) ready
    obtain ⟨last, more, rest, ready, total, verifies⟩ := later ready
    refine ⟨last, events ++ more, ?_, ready, by omega, fun _ => ?_⟩
    · simp only [iterateTimes, first, rest, Logged.bind_ok]
    · -- Only the last execution counts, which is the first one if there are no others.
      cases times with
      | zero =>
        cases rest
        exact verified
      | succ => exact verifies (by omega)

end

/-! ### Whole trials -/

theorem finish_of_ready {compiled : Compiled} {units : Nat} {session : Session} (ready : Ready compiled units session)
    (distinct : (addresses units).Nodup) (verified : verify session.context session.memory = true)
    (timing : Option String) :
    finish session timing = ⟨[.finished session.total timing true, .releasing units], .ok ()⟩ ∧
      session.cache.releaseAll.store.live = 0 := by
  have released : session.cache.releaseAll.store.live = 0 := by
    rw [ready.cache]
    exact (Cache.accounts_releaseAll (accounts_filled distinct)).live
  have size : session.cache.size = units := by simp [ready.cache, filled, Cache.size, length_addresses]
  simp [finish, verified, released, size, Logged.tell]

/-- The exit code says that a trial succeeded, and so it does if help is asked for. -/
theorem code_of_succeeds [Linkage] {platforms : Nat → Platform} {environment : Settings.Environment}
    {console : Command.Console} {arguments : List String} {settings : Settings} {executions : Nat}
    (loaded : Settings.load environment arguments = .ok settings)
    (succeeds : (run platforms settings.units executions).result = .ok ()) :
    (Command.run platforms environment console arguments executions).code = 0 := by
  by_cases help : settings.help = true
  · simp [Command.run, loaded, help]
  · simp [Command.run, loaded, help, succeeds]

section
attribute [local instance] Linkage.standard

/-- Every other execution finds another stack and another context. -/
def alternating (n : Nat) : Platform :=
  if n % 2 = 0 then .standard
  else { Platform.standard with contextAddress := 0x600000010000, stackPointer := 0x7ffd00000008 }

theorem layout_alternating (n : Nat) : Layout (alternating n).contextAddress (alternating n).stackPointer := by
  unfold alternating
  split
  · exact layout_standard
  · constructor <;> decide

end

end Rehost.Trial
