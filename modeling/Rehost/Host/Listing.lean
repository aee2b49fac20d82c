import Rehost.Host.Instr

/-!
# Listings

A listing is a sequence of instructions and label definitions with a supply of fresh labels. Taking
its nodes out leaves the supply alone, so labels made later never repeat earlier ones.
-/

namespace Rehost.Host

/-- An instruction, or the definition of a label at this point. -/
inductive Node where
  | instr (i : Instr)
  | label (l : Label)
  deriving DecidableEq, Repr

def Node.instr? : Node → Option Instr
  | instr i => some i
  | label _ => none

structure Listing where
  nodes : List Node := []
  nextLabel : Label := 0
  deriving DecidableEq, Repr

namespace Listing

def size (listing : Listing) : Nat := listing.nodes.length

def isEmpty (listing : Listing) : Bool := listing.nodes.isEmpty

/-- The instructions, in order. -/
def instrs (listing : Listing) : List Instr := listing.nodes.filterMap Node.instr?

def append (listing : Listing) (nodes : List Node) : Listing :=
  { listing with nodes := listing.nodes ++ nodes }

def emit (listing : Listing) (i : Instr) : Listing := listing.append [.instr i]

/-- Defines a label at the end. -/
def bind (listing : Listing) (l : Label) : Listing := listing.append [.label l]

/-- A label that was not handed out before. -/
def fresh (listing : Listing) : Label × Listing :=
  (listing.nextLabel, { listing with nextLabel := listing.nextLabel + 1 })

/-- All nodes, and the listing without them. -/
def take (listing : Listing) : List Node × Listing :=
  (listing.nodes, { listing with nodes := [] })

@[simp] theorem instrs_emit (listing : Listing) (i : Instr) :
    (listing.emit i).instrs = listing.instrs ++ [i] := by
  simp [emit, append, instrs, Node.instr?]

@[simp] theorem instrs_bind (listing : Listing) (l : Label) :
    (listing.bind l).instrs = listing.instrs := by
  simp [bind, append, instrs, Node.instr?]

end Listing

end Rehost.Host
