import Rehost.Block

/-!
# The cache of blocks

Blocks by guest address over a common store of code. An address is looked up among the keys; that the block found
there is the one of that address, and that no key stands twice, is for the operations to keep.
-/

namespace Rehost

structure Cache where
  blocks : List (Word × Block) := []
  store : CodeStore := {}
  deriving DecidableEq, Repr

namespace Cache

/-- The block of an address. -/
def find? (cache : Cache) (address : Word) : Option Block := cache.blocks.lookup address

/-- Adds an empty block for an address, unless there is one. -/
def create (cache : Cache) (address : Word) : Cache :=
  match cache.find? address with
  | some _ => cache
  | none => { cache with blocks := cache.blocks ++ [(address, { address })] }

/-- Puts a block in the place of the one of an address. -/
def replace (cache : Cache) (address : Word) (block : Block) : Cache :=
  { cache with
    blocks := cache.blocks.map fun entry => if entry.1 = address then (address, block) else entry }

/-- Generates code for the block of an address, if there is one. -/
def generate [Linkage] (cache : Cache) (address : Word) (draft : Draft) : Cache × Option (Except Error Unit) :=
  match cache.find? address with
  | none => (cache, none)
  | some block =>
    let generation := block.generate cache.store draft.frontEnd ()
    ({ cache.replace address generation.block with store := generation.store }, some generation.result)

/-- Drops the code of the block of an address, if there is one. -/
def reset (cache : Cache) (address : Word) : Cache :=
  match cache.find? address with
  | none => cache
  | some block =>
    let (block, store) := block.reset cache.store
    { cache.replace address block with store }

/-- Removes the block of an address with its code, and says whether there was one. -/
def release (cache : Cache) (address : Word) : Cache × Bool :=
  match cache.find? address with
  | none => (cache, false)
  | some block =>
    ({ blocks := cache.blocks.filter (·.1 ≠ address), store := (block.reset cache.store).2 }, true)

/-- Removes every block with its code. -/
def releaseAll (cache : Cache) : Cache :=
  { blocks := []
    store := cache.blocks.foldl (fun store entry => (entry.2.reset store).2) cache.store }

def size (cache : Cache) : Nat := cache.blocks.length

end Cache

end Rehost
