import Rehost.Guest.FlatMemory

/-!
# Flat memory as a map

Flat memory computes positions in words and keeps its bytes in a list. It behaves like a map from addresses to
bytes (`ByteMap`), for which an address is a number of any size: the map answers the same calls alike, and holds the
same bytes after each (`represents_serve`). So it does after any number of calls (`refines_byteMap`), also if the
stretch reaches past 2^64.
-/

namespace Rehost.Guest

theorem isAccessSize_iff {n : Nat} : isAccessSize n = true ↔ n = 1 ∨ n = 2 ∨ n = 4 ∨ n = 8 := by
  simp [isAccessSize, accessSizes]

namespace FlatMemory

/-! ### Calls -/

/-- What flat memory can be asked for. -/
inductive Call where
  | read (address : Word) (n : Nat)
  | write (address : Word) (bytes : List Byte)
  | read32 (address : Word)
  | write32 (address : Word) (value : BitVec 32)
  deriving DecidableEq, Repr

/-- What a call is answered with. -/
inductive Answer where
  | read (result : Except Refusal (List Byte))
  | written (result : Except Refusal Unit)
  | read32 (value : Option (BitVec 32))
  | written32 (done : Bool)

/-- The state after calls that are served one after the other, and the answers. -/
def runCalls {σ : Type} (serve : σ → Call → σ × Answer) (state : σ) : List Call → σ × List Answer
  | [] => (state, [])
  | call :: rest =>
    let (state, answer) := serve state call
    let (state, answers) := runCalls serve state rest
    (state, answer :: answers)

/-- The memory after a call, and the answer. Accesses of any size are asked for as of a handler. -/
def serve (memory : FlatMemory) : Call → FlatMemory × Answer
  | .read address n =>
    let reply := handler.read memory address n
    (reply.state, .read (reply.result.map fun _ => reply.buffer.toList))
  | .write address bytes =>
    let (memory, result) := handler.write memory address bytes
    (memory, .written result)
  | .read32 address => (memory, .read32 (memory.read32 address))
  | .write32 address value =>
    match memory.write32 address value with
    | some memory => (memory, .written32 true)
    | none => (memory, .written32 false)

end FlatMemory

open FlatMemory (Call Answer runCalls)

/-! ### Maps -/

/-- Bytes by address. Of all addresses, `length` ones from `base` upwards are mapped. -/
structure ByteMap where
  base : Nat
  length : Nat
  byte : Nat → Byte

namespace ByteMap

def zeros (base length : Nat) : ByteMap := ⟨base, length, fun _ => 0⟩

/-- Whether `n` bytes at an address are mapped. -/
def Maps (map : ByteMap) (address n : Nat) : Prop :=
  map.base ≤ address ∧ address + n ≤ map.base + map.length

instance (map : ByteMap) (address n : Nat) : Decidable (map.Maps address n) :=
  inferInstanceAs (Decidable (_ ∧ _))

/-- The `n` bytes from an address on. -/
def get (map : ByteMap) (address n : Nat) : List Byte :=
  (List.range n).map fun i => map.byte (address + i)

/-- The map with bytes replaced from an address on. -/
def put (map : ByteMap) (address : Nat) (bytes : List Byte) : ByteMap :=
  { map with byte := fun x => if address ≤ x then bytes.getD (x - address) (map.byte x) else map.byte x }

/-- Why an access is refused, if it is: for its size, or else for its range. -/
def fault? (map : ByteMap) (address : Word) (n : Nat) : Option Fault :=
  if n = 1 ∨ n = 2 ∨ n = 4 ∨ n = 8 then
    if map.Maps address.toNat n then none else some (.unmapped address n)
  else some (.unsupportedSize n)

/-- The map after a call, and the answer. -/
def serve (map : ByteMap) : Call → ByteMap × Answer
  | .read address n =>
    match map.fault? address n with
    | some fault => (map, .read (.error (.fault fault)))
    | none => (map, .read (.ok (map.get address.toNat n)))
  | .write address bytes =>
    match map.fault? address bytes.length with
    | some fault => (map, .written (.error (.fault fault)))
    | none => (map.put address.toNat bytes, .written (.ok ()))
  | .read32 address =>
    if map.Maps address.toNat 4 then
      (map, .read32 (some (BitVec.ofNat 32 (ofBytes (map.get address.toNat 4)))))
    else (map, .read32 none)
  | .write32 address value =>
    if map.Maps address.toNat 4 then (map.put address.toNat (toBytes value 4), .written32 true)
    else (map, .written32 false)

theorem maps_of_fault? {map : ByteMap} {address : Word} {n : Nat} (served : map.fault? address n = none) :
    map.Maps address.toNat n := by
  unfold fault? at served
  split at served
  · split at served
    · assumption
    · cases served
  · cases served

/-- The byte that a call puts at an address, if it does. -/
def stored? (map : ByteMap) (x : Nat) : Call → Option Byte
  | .write address bytes =>
    if map.fault? address bytes.length = none ∧ address.toNat ≤ x then bytes[x - address.toNat]? else none
  | .write32 address value =>
    if map.Maps address.toNat 4 ∧ address.toNat ≤ x then (toBytes value 4)[x - address.toNat]? else none
  | _ => none

theorem serve_bounds (map : ByteMap) (call : Call) :
    (map.serve call).1.base = map.base ∧ (map.serve call).1.length = map.length := by
  cases call with
  | read | write => simp only [serve]; split <;> exact ⟨rfl, rfl⟩
  | read32 | write32 => simp only [serve]; split <;> exact ⟨rfl, rfl⟩

theorem runCalls_bounds (map : ByteMap) (calls : List Call) :
    (runCalls serve map calls).1.base = map.base ∧ (runCalls serve map calls).1.length = map.length := by
  induction calls generalizing map with
  | nil => exact ⟨rfl, rfl⟩
  | cons call rest later =>
    obtain ⟨base, length⟩ := map.serve_bounds call
    simpa only [runCalls, base, length] using later (map.serve call).1

/-- After a call an address has the byte that the call puts there, or else the one it had. -/
theorem byte_serve (map : ByteMap) (call : Call) (x : Nat) :
    (map.serve call).1.byte x = (map.stored? x call).getD (map.byte x) := by
  cases call with
  | read address n =>
    simp only [serve]
    split <;> rfl
  | read32 address =>
    simp only [serve]
    split <;> rfl
  | write address bytes =>
    cases fault : map.fault? address bytes.length with
    | some fault => simp [serve, stored?, fault]
    | none =>
      by_cases above : address.toNat ≤ x
      · simp [serve, stored?, fault, put, above]
      · simp [serve, stored?, fault, put, above]
  | write32 address value =>
    by_cases mapped : map.Maps address.toNat 4
    · by_cases above : address.toNat ≤ x
      · simp [serve, stored?, mapped, put, above]
      · simp [serve, stored?, mapped, put, above]
    · simp [serve, stored?, mapped]

/-- What a call puts where depends on which addresses are mapped only. -/
theorem stored?_congr {one two : ByteMap} (base : one.base = two.base) (length : one.length = two.length) :
    one.stored? = two.stored? := by
  obtain ⟨_, _, _⟩ := one
  obtain ⟨_, _, _⟩ := two
  cases base
  cases length
  funext x call
  cases call <;> rfl

/-- After calls an address has the byte that was put there last. -/
theorem byte_runCalls (map : ByteMap) (calls : List Call) (x : Nat) :
    (runCalls serve map calls).1.byte x = (calls.reverse.findSome? (map.stored? x)).getD (map.byte x) := by
  induction calls generalizing map with
  | nil => rfl
  | cons call rest later =>
    obtain ⟨base, length⟩ := map.serve_bounds call
    simp only [runCalls, later, stored?_congr base length, byte_serve, List.reverse_cons, List.findSome?_append,
      List.findSome?_singleton]
    cases rest.reverse.findSome? (map.stored? x) <;> rfl

end ByteMap

/-! ### Bytes of a stretch -/

namespace FlatMemory

variable {memory : FlatMemory}

/-- Words suffice for the positions in a stretch that is no longer than a word can say. -/
theorem start?_eq (fits : memory.bytes.length < 0x1_0000_0000_0000_0000) (address : Word) (n : Nat) :
    memory.start? address n =
      if memory.base.toNat ≤ address.toNat ∧ address.toNat + n ≤ memory.base.toNat + memory.bytes.length then
        some (address.toNat - memory.base.toNat)
      else none := by
  unfold start?
  by_cases below : address < memory.base
  · have less : address.toNat < memory.base.toNat := below
    rw [if_pos below, if_neg (by omega)]
  · have above : memory.base ≤ address := BitVec.not_lt.mp below
    have least : memory.base.toNat ≤ address.toNat := above
    have start : (address - memory.base).toNat = address.toNat - memory.base.toNat := BitVec.toNat_sub_of_le above
    simp only [if_neg below, start]
    -- In the stretch the sum stays below 2^64, so the check for that refuses nothing more.
    by_cases inside : address.toNat + n ≤ memory.base.toNat + memory.bytes.length
    · rw [if_neg (by omega), if_pos (by omega), if_pos ⟨least, inside⟩]
    · rw [if_neg (c := _ ∧ _) (by omega)]
      split
      · rfl
      · rw [if_neg (by omega)]

section
variable {address : Word} {n start : Nat} {bytes : List Byte} {fault : Fault}

theorem handler_read_of_located (located : memory.locate address n = .ok start) :
    handler.read memory address n = ⟨memory, .ok (), memory.slice start n⟩ := by
  have read : memory.read address n = .ok (memory.slice start n) := by
    rw [FlatMemory.read, located]
    rfl
  simp only [handler, read]

theorem handler_read_of_refused (refused : memory.locate address n = .error fault) :
    handler.read memory address n = ⟨memory, .error (.fault fault), Vector.replicate n 0⟩ := by
  have read : memory.read address n = .error fault := by
    rw [FlatMemory.read, refused]
    rfl
  simp only [handler, read]

theorem handler_write_of_located (located : memory.locate address bytes.length = .ok start) :
    handler.write memory address bytes = (memory.splice start bytes, .ok ()) := by
  have write : memory.write address bytes = .ok (memory.splice start bytes) := by
    rw [FlatMemory.write, located]
    rfl
  simp only [handler, write]

theorem handler_write_of_refused (refused : memory.locate address bytes.length = .error fault) :
    handler.write memory address bytes = (memory, .error (.fault fault)) := by
  have write : memory.write address bytes = .error fault := by
    rw [FlatMemory.write, refused]
    rfl
  simp only [handler, write]

end

-- A stretch may reach past 2^64, and so may an access.
example : (zeros 0xfffffffffffffffc 8).start? 0xfffffffffffffffe 4 = some 2 := by decide

/-- All bytes of a located access are there. -/
theorem le_of_start? {address : Word} {n start : Nat} (located : memory.start? address n = some start) :
    start + n ≤ memory.bytes.length := by
  simp only [start?] at located
  split at located
  · cases located
  · split at located
    · cases located
    · split at located
      next inside =>
        cases located
        exact inside
      next => cases located

theorem getElem?_splice {start : Nat} {bytes : List Byte} (inside : start + bytes.length ≤ memory.bytes.length) (i : Nat) :
    (memory.splice start bytes).bytes[i]? =
      if start ≤ i ∧ i < start + bytes.length then bytes[i - start]? else memory.bytes[i]? := by
  have long : (memory.bytes.take start).length = start := List.length_take_of_le (by omega)
  simp only [splice, List.append_assoc, List.getElem?_append, long, List.getElem?_take, List.getElem?_drop]
  by_cases before : i < start
  · have outside : ¬(start ≤ i ∧ i < start + bytes.length) := by omega
    rw [if_pos before, if_pos before, if_neg outside]
  · by_cases here : i < start + bytes.length
    · have counted : i - start < bytes.length := by omega
      simp [before, here, counted]
    · have counted : ¬i - start < bytes.length := by omega
      have same : start + bytes.length + (i - start - bytes.length) = i := by omega
      simp [before, here, counted, same]

theorem length_splice {start : Nat} {bytes : List Byte} (inside : start + bytes.length ≤ memory.bytes.length) :
    (memory.splice start bytes).bytes.length = memory.bytes.length := by
  simp only [splice, List.length_append, List.length_take, List.length_drop]
  omega

theorem toList_slice_splice {start : Nat} {bytes : List Byte}
    (inside : start + bytes.length ≤ memory.bytes.length) :
    ((memory.splice start bytes).slice start bytes.length).toList = bytes := by
  apply List.ext_getElem
  · simp
  · intro i _ short
    have there := getElem?_splice inside (start + i)
    rw [if_pos ⟨by omega, by omega⟩, Nat.add_sub_cancel_left] at there
    simp [slice, there, short]

/-- Where accesses are located does not depend on the bytes. -/
theorem locate_splice {start : Nat} {bytes : List Byte} (inside : start + bytes.length ≤ memory.bytes.length)
    (address : Word) (n : Nat) : (memory.splice start bytes).locate address n = memory.locate address n := by
  have base : (memory.splice start bytes).base = memory.base := rfl
  unfold locate start?
  rw [length_splice inside, base]

theorem le_of_located {address : Word} {n start : Nat} (located : memory.locate address n = .ok start) :
    start + n ≤ memory.bytes.length := by
  unfold locate at located
  split at located
  · split at located
    next found =>
      cases located
      exact le_of_start? found
    next => cases located
  · cases located

/-- A read of bytes that were just written gives them back. -/
theorem handler_read_splice {address : Word} {n start : Nat} {bytes : List Byte} (length : bytes.length = n)
    (located : memory.locate address n = .ok start) :
    ∃ buffer, handler.read (memory.splice start bytes) address n = ⟨memory.splice start bytes, .ok (), buffer⟩ ∧
      buffer.toList = bytes := by
  subst length
  have inside := le_of_located located
  rw [← locate_splice inside] at located
  exact ⟨_, handler_read_of_located located, toList_slice_splice inside⟩

/-! ### Memory and map -/

/-- A map that has the bytes of a memory, at the same addresses. -/
structure Represents (memory : FlatMemory) (map : ByteMap) : Prop where
  base : map.base = memory.base.toNat
  length : map.length = memory.bytes.length
  fits : memory.bytes.length < 0x1_0000_0000_0000_0000
  byte : ∀ i, i < memory.bytes.length → memory.bytes[i]? = some (map.byte (map.base + i))

theorem represents_zeros (base length : Word) :
    (zeros base length.toNat).Represents (.zeros base.toNat length.toNat) := by
  constructor
  case base => rfl
  case length => simp [zeros, ByteMap.zeros]
  case fits => simpa [zeros] using length.isLt
  case byte =>
    intro i inside
    rw [zeros, List.length_replicate] at inside
    simp [zeros, ByteMap.zeros, inside]

section
variable {map : ByteMap} (represents : memory.Represents map)
include represents

theorem Represents.bytes_eq : memory.bytes = map.get map.base map.length := by
  apply List.ext_getElem?
  intro i
  by_cases inside : i < memory.bytes.length
  · rw [represents.byte i inside]
    simp [ByteMap.get, represents.length, inside]
  · simp [ByteMap.get, represents.length, inside]

theorem start?_of_maps {address : Word} {n : Nat} (mapped : map.Maps address.toNat n) :
    memory.start? address n = some (address.toNat - map.base) := by
  obtain ⟨above, inside⟩ := mapped
  rw [represents.base] at above
  rw [represents.base, represents.length] at inside
  rw [start?_eq represents.fits, if_pos ⟨above, inside⟩, represents.base]

theorem start?_of_not_maps {address : Word} {n : Nat} (unmapped : ¬map.Maps address.toNat n) :
    memory.start? address n = none := by
  rw [ByteMap.Maps, represents.base, represents.length] at unmapped
  rw [start?_eq represents.fits, if_neg unmapped]

theorem toList_slice {address n : Nat} (mapped : map.Maps address n) :
    (memory.slice (address - map.base) n).toList = map.get address n := by
  obtain ⟨above, inside⟩ := mapped
  rw [represents.length] at inside
  apply List.ext_getElem
  · simp [ByteMap.get]
  · intro i _ counted
    have short : i < n := by simpa [ByteMap.get] using counted
    have there := represents.byte (address - map.base + i) (by omega)
    have same : map.base + (address - map.base + i) = address + i := by omega
    rw [same] at there
    simp [slice, ByteMap.get, there]

theorem represents_splice {address : Nat} {bytes : List Byte} (mapped : map.Maps address bytes.length) :
    (memory.splice (address - map.base) bytes).Represents (map.put address bytes) := by
  obtain ⟨above, inside⟩ := mapped
  rw [represents.length] at inside
  have covered : address - map.base + bytes.length ≤ memory.bytes.length := by omega
  have length := length_splice covered
  constructor
  case base => exact represents.base
  case length => exact represents.length.trans length.symm
  case fits => rw [length]; exact represents.fits
  case byte =>
    intro i bound
    rw [length] at bound
    have old := represents.byte i bound
    rw [getElem?_splice covered]
    simp only [ByteMap.put]
    -- The byte lies before what is written, in it, or behind it.
    by_cases below : i < address - map.base
    · rw [if_neg (by omega), if_neg (by omega), old]
    · have counted : map.base + i - address = i - (address - map.base) := by omega
      rw [if_pos (c := address ≤ _) (by omega), counted]
      by_cases here : i < address - map.base + bytes.length
      · rw [if_pos ⟨by omega, here⟩]
        have short : i - (address - map.base) < bytes.length := by omega
        simp [short]
      · rw [if_neg (by omega), old]
        have past : bytes.length ≤ i - (address - map.base) := by omega
        simp [past]

/-- An access is located where the map says, or refused for the same reason. -/
theorem locate_eq (address : Word) (n : Nat) :
    memory.locate address n =
      match map.fault? address n with
      | some fault => .error fault
      | none => .ok (address.toNat - map.base) := by
  unfold locate ByteMap.fault?
  by_cases sized : n = 1 ∨ n = 2 ∨ n = 4 ∨ n = 8
  · rw [if_pos sized, if_pos (isAccessSize_iff.mpr sized)]
    by_cases mapped : map.Maps address.toNat n
    · simp [mapped, start?_of_maps represents mapped]
    · simp [mapped, start?_of_not_maps represents mapped]
  · rw [if_neg sized, if_neg (mt isAccessSize_iff.mp sized)]

/-- Memory and map answer a call alike, and have the same bytes afterwards. -/
theorem represents_serve (call : Call) :
    (memory.serve call).1.Represents (map.serve call).1 ∧ (memory.serve call).2 = (map.serve call).2 := by
  cases call with
  | read address n =>
    have located := locate_eq represents address n
    cases faulty : map.fault? address n with
    | some fault =>
      rw [faulty] at located
      simp [serve, ByteMap.serve, faulty, handler_read_of_refused located, Except.map, represents]
    | none =>
      rw [faulty] at located
      have bytes := toList_slice represents (ByteMap.maps_of_fault? faulty)
      simp [serve, ByteMap.serve, faulty, handler_read_of_located located, Except.map, bytes, represents]
  | write address bytes =>
    have located := locate_eq represents address bytes.length
    cases faulty : map.fault? address bytes.length with
    | some fault =>
      rw [faulty] at located
      simp [serve, ByteMap.serve, faulty, handler_write_of_refused located, represents]
    | none =>
      rw [faulty] at located
      have changed := represents_splice represents (ByteMap.maps_of_fault? faulty)
      simp [serve, ByteMap.serve, faulty, handler_write_of_located located, changed]
  | read32 address =>
    by_cases mapped : map.Maps address.toNat 4
    · have bytes := toList_slice represents mapped
      simp [serve, ByteMap.serve, read32, mapped, start?_of_maps represents mapped, bytes, represents]
    · simp [serve, ByteMap.serve, read32, mapped, start?_of_not_maps represents mapped, represents]
  | write32 address value =>
    by_cases mapped : map.Maps address.toNat 4
    · have counted : map.Maps address.toNat (toBytes value 4).length := by rwa [length_toBytes]
      have changed := represents_splice represents counted
      simp [serve, ByteMap.serve, write32, mapped, start?_of_maps represents mapped, changed]
    · simp [serve, ByteMap.serve, write32, mapped, start?_of_not_maps represents mapped, represents]

end

/-- Memory and map answer any number of calls alike. -/
theorem represents_runCalls {map : ByteMap} (represents : memory.Represents map) (calls : List Call) :
    (runCalls serve memory calls).1.Represents (runCalls ByteMap.serve map calls).1 ∧
      (runCalls serve memory calls).2 = (runCalls ByteMap.serve map calls).2 := by
  induction calls generalizing memory map with
  | nil => exact ⟨represents, rfl⟩
  | cons call rest later =>
    obtain ⟨kept, same⟩ := represents_serve represents call
    obtain ⟨last, answers⟩ := later kept
    simp only [runCalls, same, answers, and_true]
    exact last

theorem read32_eq (memory : FlatMemory) (address : Word) :
    memory.read32 address =
      (memory.read address 4).toOption.map fun bytes => BitVec.ofNat 32 (ofBytes bytes.toList) := by
  have sized : isAccessSize 4 = true := rfl
  unfold read32 FlatMemory.read locate
  rw [if_pos sized]
  cases memory.start? address 4 <;> rfl

theorem write32_eq (memory : FlatMemory) (address : Word) (value : BitVec 32) :
    memory.write32 address value = (memory.write address (toBytes value 4)).toOption := by
  have sized : isAccessSize (toBytes value 4).length = true := by rw [length_toBytes]; rfl
  unfold write32 FlatMemory.write locate
  rw [if_pos sized, length_toBytes]
  cases memory.start? address 4 <;> rfl

/-- Flat memory refines a map of bytes that are zero at first. Whatever calls are made, both give the same answers,
and in order of their addresses the bytes of the memory are those of the map. The map has at each address the byte
that was put there last. Neither base nor length ever change, and no access is located outside of the stretch.
Accesses of 32 bits are those of four bytes, least significant first. -/
theorem refines_byteMap (base length : Word) (calls : List Call) :
    let start := zeros base length.toNat
    let empty := ByteMap.zeros base.toNat length.toNat
    let memory := (runCalls serve start calls).1
    let map := (runCalls ByteMap.serve empty calls).1
    (runCalls serve start calls).2 = (runCalls ByteMap.serve empty calls).2 ∧
    memory.bytes = map.get base.toNat length.toNat ∧
    (∀ x, map.byte x = (calls.reverse.findSome? (empty.stored? x)).getD 0) ∧
    memory.base = base ∧ memory.bytes.length = length.toNat ∧
    (∀ address n position, memory.start? address n = some position → position + n ≤ memory.bytes.length) ∧
    (∀ address, memory.read32 address =
      (memory.read address 4).toOption.map fun bytes => BitVec.ofNat 32 (ofBytes bytes.toList)) ∧
    (∀ address value, memory.write32 address value = (memory.write address (toBytes value 4)).toOption) := by
  intro start empty memory map
  obtain ⟨represents, answers⟩ := represents_runCalls (represents_zeros base length) calls
  obtain ⟨mapBase, mapLength⟩ : map.base = base.toNat ∧ map.length = length.toNat := empty.runCalls_bounds calls
  have long : memory.bytes.length = length.toNat := represents.length.symm.trans mapLength
  refine ⟨answers, ?_, empty.byte_runCalls calls, ?_, long, ?_, read32_eq memory, write32_eq memory⟩
  · rw [← mapBase, ← mapLength]
    exact represents.bytes_eq
  · exact BitVec.eq_of_toNat_eq (represents.base.symm.trans mapBase)
  · intro address n position located
    exact le_of_start? located

end FlatMemory

end Rehost.Guest
