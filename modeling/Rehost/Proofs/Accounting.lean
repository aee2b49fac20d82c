import Rehost.Cache
import Rehost.Proofs.Generation

/-!
# Accounting

Requests to a cache, in any order and for any addresses. Whatever has been requested, each address has at most one
block, no block has instructions queued, and the counters of the store are what the blocks of the cache add up to
(`accounts_run`, from `accounts_serve`). Hence no release ever cuts a counter off at zero (`covers_of_accounts`). A
request for one address leaves the blocks of all others as they were (`find?_serve_of_ne`).
-/

namespace Rehost

open Guest (Context Handler)

/-- The code that a block has installed. -/
def Block.installed (block : Block) : List Byte := block.code.getD []

/-- A reset takes what the block has installed off the counters. -/
theorem Block.reset_eq (block : Block) (store : CodeStore) :
    block.reset store =
      ({ block with code := none },
        { store with
          live := store.live - if block.generated then 1 else 0
          codeBytes := store.codeBytes - block.installed.length }) := by
  obtain ⟨address, pending, code⟩ := block
  cases code <;> rfl

/-- Whether releasing code takes nothing off the counters that is not there. -/
structure CodeStore.Covers (store : CodeStore) (code : List Byte) : Prop where
  live : 1 ≤ store.live
  codeBytes : code.length ≤ store.codeBytes

namespace Cache

variable {σ : Type}

/-- The blocks of a cache without their keys. -/
def contents (cache : Cache) : List Block := cache.blocks.map Prod.snd

/-- What can be requested of a cache. Whoever has a block executed brings a platform, the context and guest memory. -/
inductive Request (σ : Type) where
  | create (address : Word)
  | find (address : Word)
  | generate (address : Word) (draft : Draft)
  | reset (address : Word)
  | execute (address : Word) (platform : Machine.Platform) (handler : Handler σ) (context : Context) (memory : σ)
  | release (address : Word)
  | releaseAll

/-- The address that a request is for. -/
def Request.address? : Request σ → Option Word
  | create address | find address | generate address _ | reset address | execute address _ _ _ _ | release address =>
    some address
  | releaseAll => none

/-- What a request is answered with. -/
inductive Answer (σ : Type) where
  | done
  | found (block : Option Block)
  | generated (result : Option (Except Error Unit))
  | executed (execution : Option (Block.Execution σ))
  | released (existed : Bool)

/-- Whether new code was installed. -/
def Answer.installed : Answer σ → Bool
  | generated result => result.any Except.isOk
  | _ => false

/-- The cache after a request, and the answer. -/
def serve [Linkage] (cache : Cache) : Request σ → Cache × Answer σ
  | .create address => (cache.create address, .done)
  | .find address => (cache, .found (cache.find? address))
  | .generate address draft =>
    let (cache, result) := cache.generate address draft
    (cache, .generated result)
  | .reset address => (cache.reset address, .done)
  | .execute address platform handler context memory =>
    (cache, .executed ((cache.find? address).map fun block => block.execute platform handler context memory))
  | .release address =>
    let (cache, existed) := cache.release address
    (cache, .released existed)
  | .releaseAll => (cache.releaseAll, .done)

/-- The cache after requests, and the answers. -/
def run [Linkage] (cache : Cache) : List (Request σ) → Cache × List (Answer σ)
  | [] => (cache, [])
  | request :: rest =>
    let (cache, answer) := cache.serve request
    let (cache, answers) := cache.run rest
    (cache, answer :: answers)

/-- The books of a cache in which code has been installed a number of times. -/
structure Accounts (cache : Cache) (installs : Nat) : Prop where
  keyed : ∀ address block, (address, block) ∈ cache.blocks → block.address = address
  distinct : (cache.blocks.map Prod.fst).Nodup
  idle : ∀ block ∈ cache.contents, block.pending = {}
  live : cache.store.live = cache.contents.countP Block.generated
  codeBytes : cache.store.codeBytes = (cache.contents.flatMap Block.installed).length
  installed : cache.store.installedTotal = installs

/-! ### One block among others -/

/-- A block under its key between blocks under others. -/
structure Around (cache : Cache) (address : Word) (block : Block) (before after : List (Word × Block)) : Prop where
  blocks : cache.blocks = before ++ (address, block) :: after
  before : ∀ entry ∈ before, entry.1 ≠ address
  after : ∀ entry ∈ after, entry.1 ≠ address

theorem around_of_find? {cache : Cache} (distinct : (cache.blocks.map Prod.fst).Nodup) {address : Word} {block : Block}
    (found : cache.find? address = some block) : ∃ before after, cache.Around address block before after := by
  obtain ⟨before, after, blocks, earlier⟩ := List.lookup_eq_some_iff.mp found
  refine ⟨before, after, blocks, fun entry member same => ?_, ?_⟩
  · have other := earlier entry member
    simp [same] at other
  · rw [blocks, List.map_append, List.map_cons] at distinct
    have later := (List.nodup_cons.mp (List.nodup_append.mp distinct).2.1).1
    exact fun entry member same => later (List.mem_map.mpr ⟨entry, member, same⟩)

namespace Around

variable {cache : Cache} {address : Word} {block : Block} {before after : List (Word × Block)}

theorem contents (around : cache.Around address block before after) :
    cache.contents = before.map Prod.snd ++ block :: after.map Prod.snd := by
  simp [Cache.contents, around.blocks]

theorem replace (around : cache.Around address block before after) (new : Block) :
    (cache.replace address new).Around address new before after := by
  have kept {entries : List (Word × Block)} (others : ∀ entry ∈ entries, entry.1 ≠ address) :
      entries.map (fun entry => if entry.1 = address then (address, new) else entry) = entries := by
    refine (List.map_congr_left fun entry member => ?_).trans (List.map_id entries)
    rw [if_neg (others entry member), id]
  refine ⟨?_, around.before, around.after⟩
  rw [Cache.replace, around.blocks, List.map_append, List.map_cons, kept around.before, kept around.after, if_pos rfl]

theorem filter (around : cache.Around address block before after) :
    cache.blocks.filter (·.1 ≠ address) = before ++ after := by
  rw [around.blocks, List.filter_append, List.filter_cons_of_neg (by simp),
    List.filter_eq_self.mpr (by simpa using around.before), List.filter_eq_self.mpr (by simpa using around.after)]

end Around

/-! ### Single blocks -/

/-- A block that stands for another in a cache, with what the counters of the store say before and after. -/
structure Succeeds (block new : Block) (store after : CodeStore) : Prop where
  address : new.address = block.address
  idle : block.pending = {} → new.pending = {}
  live : (after.live + if block.generated then 1 else 0) = store.live + if new.generated then 1 else 0
  codeBytes : after.codeBytes + block.installed.length = store.codeBytes + new.installed.length

theorem accounts_succeeds {cache : Cache} {installs : Nat} (accounts : cache.Accounts installs) {address : Word}
    {block new : Block} {before after : List (Word × Block)} (around : cache.Around address block before after)
    {store : CodeStore} (succeeds : Succeeds block new cache.store store) :
    ({ cache.replace address new with store } : Cache).Accounts store.installedTotal := by
  have replaced := around.replace new
  have contents : Cache.contents { cache.replace address new with store } = _ := replaced.contents
  obtain ⟨keyed, distinct, idle, live, codeBytes, installed⟩ := accounts
  rw [around.contents] at idle live codeBytes
  rw [around.blocks] at keyed distinct
  constructor
  case keyed =>
    intro other unit member
    simp only [replaced.blocks, List.mem_append, List.mem_cons, Prod.mk.injEq] at member
    obtain earlier | ⟨rfl, rfl⟩ | later := member
    · exact keyed other unit (by simp [earlier])
    · rw [succeeds.address]
      exact keyed _ block (by simp)
    · exact keyed other unit (by simp [later])
  case distinct => simpa [replaced.blocks] using distinct
  case idle =>
    rw [contents]
    intro unit member
    obtain earlier | here := List.mem_append.mp member
    · exact idle unit (List.mem_append_left _ earlier)
    · obtain rfl | later := List.mem_cons.mp here
      · exact succeeds.idle (idle block (by simp))
      · exact idle unit (List.mem_append_right _ (List.mem_cons_of_mem _ later))
  case live =>
    have change := succeeds.live
    rw [live] at change
    rw [contents]
    simp only [List.countP_append, List.countP_cons] at change ⊢
    omega
  case codeBytes =>
    have change := succeeds.codeBytes
    rw [codeBytes] at change
    rw [contents]
    simp only [List.flatMap_append, List.flatMap_cons, List.length_append] at change ⊢
    omega
  case installed => rfl

/-- A block without code can be taken out. -/
theorem accounts_drop {cache : Cache} {installs : Nat} (accounts : cache.Accounts installs) {address : Word}
    {block : Block} {before after : List (Word × Block)} (around : cache.Around address block before after)
    (empty : block.code = none) : ({ cache with blocks := before ++ after } : Cache).Accounts installs := by
  obtain ⟨keyed, distinct, idle, live, codeBytes, installed⟩ := accounts
  rw [around.contents] at idle live codeBytes
  rw [around.blocks] at keyed distinct
  have fewer : List.Sublist (before ++ after) (before ++ (address, block) :: after) := by simp
  constructor
  case keyed => exact fun other unit member => keyed other unit (fewer.subset member)
  case distinct => exact distinct.sublist (fewer.map _)
  case idle =>
    simp only [contents, List.map_append]
    intro unit member
    obtain earlier | later := List.mem_append.mp member
    · exact idle unit (List.mem_append_left _ earlier)
    · exact idle unit (List.mem_append_right _ (List.mem_cons_of_mem _ later))
  case live => simpa [contents, List.countP_cons, Block.generated, empty] using live
  case codeBytes => simpa [contents, Block.installed, empty] using codeBytes
  case installed => exact installed

/-! ### Releases -/

/-- The store after the code of blocks was released, one after the other. -/
def releasing (blocks : List Block) (store : CodeStore) : CodeStore :=
  blocks.foldl (fun store block => (block.reset store).2) store

theorem releasing_eq {blocks : List Block} {store rest : CodeStore}
    (live : store.live = blocks.countP Block.generated + rest.live)
    (codeBytes : store.codeBytes = (blocks.flatMap Block.installed).length + rest.codeBytes)
    (installed : store.installedTotal = rest.installedTotal) : releasing blocks store = rest := by
  induction blocks generalizing store with
  | nil =>
    obtain ⟨_, _, _⟩ := store
    obtain ⟨_, _, _⟩ := rest
    simp_all [releasing]
  | cons block blocks next =>
    rw [List.countP_cons] at live
    rw [List.flatMap_cons, List.length_append] at codeBytes
    apply next
    case live =>
      simp only [Block.reset_eq]
      omega
    case codeBytes =>
      simp only [Block.reset_eq]
      omega
    case installed => simpa only [Block.reset_eq] using installed

/-- Whatever blocks are released and in whatever order, no counter is cut off at zero. -/
theorem covers_of_accounts {cache : Cache} {installs : Nat} (accounts : cache.Accounts installs) {block : Block}
    {earlier later : List Block} (order : (earlier ++ block :: later).Perm cache.contents) {code : List Byte}
    (filled : block.code = some code) : (releasing earlier cache.store).Covers code := by
  have live := accounts.live
  have codeBytes := accounts.codeBytes
  rw [← order.countP_eq, List.countP_append, List.countP_cons] at live
  rw [← (order.flatMap_right _).length_eq, List.flatMap_append, List.length_append, List.flatMap_cons,
    List.length_append] at codeBytes
  have generated : block.generated = true := by simp [Block.generated, filled]
  have installed : block.installed = code := by simp [Block.installed, filled]
  rw [generated, if_pos rfl] at live
  rw [installed] at codeBytes
  let rest : CodeStore :=
    { live := later.countP Block.generated + 1
      codeBytes := code.length + (later.flatMap Block.installed).length
      installedTotal := cache.store.installedTotal }
  have left : releasing earlier cache.store = rest := releasing_eq live codeBytes rfl
  rw [left]
  exact ⟨Nat.le_add_left .., Nat.le_add_right ..⟩

/-! ### Requests -/

theorem accounts_create {cache : Cache} {installs : Nat} (accounts : cache.Accounts installs) (address : Word) :
    (cache.create address).Accounts installs := by
  unfold create
  split
  next => exact accounts
  next absent =>
    obtain ⟨keyed, distinct, idle, live, codeBytes, installed⟩ := accounts
    constructor
    case keyed =>
      intro other unit member
      obtain old | new := List.mem_append.mp member
      · exact keyed other unit old
      · cases List.mem_singleton.mp new
        rfl
    case distinct =>
      have fresh := List.lookup_eq_none_iff.mp absent
      rw [List.map_append, List.nodup_append]
      refine ⟨distinct, by simp, ?_⟩
      rintro _ old _ new same
      obtain ⟨entry, member, rfl⟩ := List.mem_map.mp old
      obtain rfl : _ = address := by simpa using new
      have other := fresh entry member
      simp [same] at other
    case idle =>
      simp only [contents, List.map_append]
      intro unit member
      obtain old | new := List.mem_append.mp member
      · exact idle unit old
      · cases List.mem_singleton.mp new
        rfl
    case live => simpa [contents, Block.generated] using live
    case codeBytes => simpa [contents, Block.installed] using codeBytes
    case installed => exact installed

theorem succeeds_reset (block : Block) {store : CodeStore} (live : (if block.generated then 1 else 0) ≤ store.live)
    (codeBytes : block.installed.length ≤ store.codeBytes) :
    Succeeds block (block.reset store).1 store (block.reset store).2 := by
  rw [Block.reset_eq]
  constructor
  case address => rfl
  case idle => exact id
  case live => exact Nat.sub_add_cancel live
  case codeBytes => exact Nat.sub_add_cancel codeBytes

/-- A block of a cache has no more installed than the counters say. -/
theorem le_of_around {cache : Cache} {installs : Nat} (accounts : cache.Accounts installs) {address : Word}
    {block : Block} {before after : List (Word × Block)} (around : cache.Around address block before after) :
    (if block.generated then 1 else 0) ≤ cache.store.live ∧ block.installed.length ≤ cache.store.codeBytes := by
  have live := accounts.live
  have codeBytes := accounts.codeBytes
  rw [around.contents, List.countP_append, List.countP_cons] at live
  rw [around.contents, List.flatMap_append, List.length_append, List.flatMap_cons, List.length_append] at codeBytes
  constructor <;> omega

theorem accounts_reset {cache : Cache} {installs : Nat} (accounts : cache.Accounts installs) (address : Word) :
    (cache.reset address).Accounts installs := by
  unfold reset
  split
  next => exact accounts
  next block found =>
    obtain ⟨before, after, around⟩ := around_of_find? accounts.distinct found
    obtain ⟨live, codeBytes⟩ := le_of_around accounts around
    have changed := accounts_succeeds accounts around (succeeds_reset block live codeBytes)
    have installed : (block.reset cache.store).2.installedTotal = installs := by
      rw [Block.reset_eq, ← accounts.installed]
    rw [installed] at changed
    exact changed

/-- To release a block is to reset it and to take it out. -/
theorem accounts_release {cache : Cache} {installs : Nat} (accounts : cache.Accounts installs) (address : Word) :
    (cache.release address).1.Accounts installs := by
  have reset := accounts_reset accounts address
  unfold release
  unfold Cache.reset at reset
  cases found : cache.find? address with
  | none => exact accounts
  | some block =>
    simp only [found] at reset ⊢
    obtain ⟨before, after, around⟩ := around_of_find? accounts.distinct found
    obtain ⟨blocks, earlier, later⟩ := around.replace (block.reset cache.store).1
    have dropped := accounts_drop reset ⟨blocks, earlier, later⟩ (by rw [Block.reset_eq])
    rw [around.filter]
    exact dropped

theorem accounts_releaseAll {cache : Cache} {installs : Nat} (accounts : cache.Accounts installs) :
    cache.releaseAll.Accounts installs := by
  have store : releasing cache.contents cache.store = { installedTotal := installs } :=
    releasing_eq accounts.live accounts.codeBytes accounts.installed
  unfold releaseAll
  rw [releasing, contents, List.foldl_map] at store
  rw [store]
  exact ⟨by simp, by simp, by simp [contents], rfl, rfl, rfl⟩

section
variable [Linkage]

/-- What an attempt at generation makes of a block and of the counters. -/
theorem succeeds_generate {τ : Type} (block : Block) (store : CodeStore) (frontEnd : FrontEnd τ) (memo : τ) :
    Succeeds block (block.generate store frontEnd memo).block store (block.generate store frontEnd memo).store ∧
      (block.generate store frontEnd memo).store.installedTotal =
        store.installedTotal + if (block.generate store frontEnd memo).result.isOk then 1 else 0 := by
  cases code : block.code with
  | some _ =>
    rw [Block.generate_of_generated (by simp [Block.generated, code])]
    exact ⟨⟨rfl, id, rfl, rfl⟩, by simp [Except.isOk, Except.toBool]⟩
  | none =>
    rw [Block.generate_of_empty code]
    split
    · exact ⟨⟨rfl, fun _ => rfl, rfl, rfl⟩, by simp [Except.isOk, Except.toBool]⟩
    · refine ⟨⟨rfl, fun _ => rfl, ?_, ?_⟩, by simp [CodeStore.add, Except.isOk, Except.toBool]⟩
      · simp [Block.generated, code, CodeStore.add]
      · simp [Block.installed, code, CodeStore.add]

theorem accounts_generate {cache : Cache} {installs : Nat} (accounts : cache.Accounts installs) (address : Word)
    (draft : Draft) :
    (cache.generate address draft).1.Accounts
      (installs + if (cache.generate address draft).2.any Except.isOk then 1 else 0) := by
  unfold generate
  split
  next => exact accounts
  next block found =>
    obtain ⟨before, after, around⟩ := around_of_find? accounts.distinct found
    obtain ⟨succeeds, installed⟩ := succeeds_generate block cache.store draft.frontEnd ()
    have changed := accounts_succeeds accounts around succeeds
    rw [installed, accounts.installed] at changed
    simpa using changed

/-- One request keeps the books. -/
theorem accounts_serve {cache : Cache} {installs : Nat} (accounts : cache.Accounts installs) (request : Request σ) :
    (cache.serve request).1.Accounts (installs + if (cache.serve request).2.installed then 1 else 0) := by
  cases request with
  | create address => exact accounts_create accounts address
  | find address => exact accounts
  | generate address draft => exact accounts_generate accounts address draft
  | reset address => exact accounts_reset accounts address
  | execute address platform handler context memory => exact accounts
  | release address => exact accounts_release accounts address
  | releaseAll => exact accounts_releaseAll accounts

/-- Any number of requests keep the books. -/
theorem accounts_run {cache : Cache} {installs : Nat} (accounts : cache.Accounts installs)
    (requests : List (Request σ)) :
    (cache.run requests).1.Accounts (installs + (cache.run requests).2.countP Answer.installed) := by
  induction requests generalizing cache installs with
  | nil => exact accounts
  | cons request rest next =>
    have kept := next (accounts_serve accounts request)
    simp only [run, List.countP_cons]
    rwa [Nat.add_assoc, Nat.add_comm (ite ..)] at kept

end

/-! ### Other addresses -/

theorem lookup_replace_of_ne (entries : List (Word × Block)) {address other : Word} (apart : other ≠ address)
    (new : Block) :
    (entries.map fun entry => if entry.1 = address then (address, new) else entry).lookup other =
      entries.lookup other := by
  induction entries with
  | nil => rfl
  | cons entry rest later =>
    obtain ⟨key, block⟩ := entry
    rw [List.map_cons]
    by_cases here : key = address
    · subst here
      have skipped : (other == key) = false := beq_false_of_ne apart
      simp only [if_true, List.lookup_cons, skipped, later]
    · simp only [here, if_false, List.lookup_cons, later]

theorem lookup_filter_of_ne (entries : List (Word × Block)) {address other : Word} (apart : other ≠ address) :
    (entries.filter (·.1 ≠ address)).lookup other = entries.lookup other := by
  induction entries with
  | nil => rfl
  | cons entry rest later =>
    obtain ⟨key, block⟩ := entry
    by_cases here : key = address
    · subst here
      have skipped : (other == key) = false := beq_false_of_ne apart
      rw [List.filter_cons_of_neg (by simp), later, List.lookup_cons, skipped]
    · rw [List.filter_cons_of_pos (by simpa using here), List.lookup_cons, List.lookup_cons, later]

theorem find?_create_of_ne (cache : Cache) {address other : Word} (apart : other ≠ address) :
    (cache.create address).find? other = cache.find? other := by
  unfold create
  split
  next => rfl
  next =>
    have skipped : (other == address) = false := beq_false_of_ne apart
    simp [find?, List.lookup_append, List.lookup_cons, skipped]

/-- A request for one address leaves the block of every other as it was. -/
theorem find?_serve_of_ne [Linkage] (cache : Cache) {request : Request σ} {address other : Word}
    (target : request.address? = some address) (apart : other ≠ address) :
    (cache.serve request).1.find? other = cache.find? other := by
  cases request <;> cases target
  case create => exact find?_create_of_ne cache apart
  case find => rfl
  case execute => rfl
  case generate draft =>
    simp only [serve, generate]
    split
    next => rfl
    next => exact lookup_replace_of_ne cache.blocks apart _
  case reset =>
    simp only [serve, reset]
    split
    next => rfl
    next => exact lookup_replace_of_ne cache.blocks apart _
  case release =>
    simp only [serve, release]
    split
    next => rfl
    next => exact lookup_filter_of_ne cache.blocks apart

theorem create_of_find? {cache : Cache} {address : Word} {block : Block} (found : cache.find? address = some block) :
    cache.create address = cache := by
  simp [create, found]

theorem find?_release (cache : Cache) (address : Word) : (cache.release address).1.find? address = none := by
  unfold release
  split
  next absent => exact absent
  next =>
    refine List.lookup_eq_none_iff.mpr fun entry member => ?_
    have other : entry.1 ≠ address := of_decide_eq_true (List.mem_filter.mp member).2
    exact bne_iff_ne.mpr other.symm

theorem find?_create_of_none {cache : Cache} {address : Word} (absent : cache.find? address = none) :
    (cache.create address).find? address = some { address } := by
  have nowhere : cache.blocks.lookup address = none := absent
  simp [create, find?, List.lookup_append, nowhere]

section
attribute [local instance] Linkage.standard

/-- Two blocks are generated; then one is reset and the other released. -/
def sampleRequests : List (Request Unit) :=
  let draft : Draft := { instructions := [{ mnemonic := .op .nop }] }
  [.create 0x1000, .generate 0x1000 draft, .create 0x2000, .generate 0x2000 draft, .reset 0x1000, .release 0x2000]

example :
    (run {} (sampleRequests.take 4)).1.store = { live := 2, codeBytes := 14, installedTotal := 2 } ∧
    (run {} (sampleRequests.take 5)).1.store = { live := 1, codeBytes := 7, installedTotal := 2 } ∧
    (run {} sampleRequests).1 =
      { blocks := [(0x1000, { address := 0x1000 })], store := { installedTotal := 2 } } := by
  decide +kernel

end

end Cache

end Rehost
