import Rehost.Host.Encoding.Operations
import Rehost.Host.Listing

/-!
# Layout of a listing

Instructions are encoded in order, so the offset of each is the size of those before it. Labels take no
space. Once every offset is known, each branch gets the distance from its own end to the last
definition of its label. Sizes do not depend on distances, so one pass settles them.
-/

namespace Rehost.Host

namespace Encoding

/-- A node of a listing after its instruction was encoded. -/
inductive Item where
  | mark (l : Label)
  | code (piece : Piece)
  deriving DecidableEq, Repr

def Item.size : Item → Nat
  | mark _ => 0
  | code piece => piece.size

def item : Node → Except FormError Item
  | .label l => .ok (.mark l)
  | .instr i =>
    match piece i with
    | .ok piece => .ok (.code piece)
    | .error cause => .error ⟨i.opcode, cause⟩

/-- Every node encoded on its own; the first that cannot be is reported. -/
def items : List Node → Except FormError (List Item)
  | [] => .ok []
  | node :: rest => do
    let first ← item node
    return first :: (← items rest)

/-- The offset of the last definition of a label, where the items begin at `offset`. -/
def labelOffset? (l : Label) : (offset : Nat) → List Item → Option Nat
  | _, [] => none
  | offset, .mark other :: rest =>
    match labelOffset? l offset rest with
    | some found => some found
    | none => if other = l then some offset else none
  | offset, .code piece :: rest => labelOffset? l (offset + piece.size) rest

/-- The displacement from the end of a branch to its target, which must fit 32 signed bits. -/
def distance (target stop : Nat) : Except Cause (BitVec 32) :=
  let difference := (target : Int) - stop
  if -0x80000000 ≤ difference ∧ difference ≤ 0x7fffffff then .ok (BitVec.ofInt 32 difference)
  else .error .displacement

/-- The bytes of a piece that begins at `offset`, given the offsets of labels. -/
def pieceBytes (labels : Label → Option Nat) (offset : Nat) (piece : Piece) :
    Except Cause (List Byte) :=
  match piece.target with
  | none => .ok piece.bytes
  | some l =>
    match labels l with
    | none => .error .unboundLabel
    | some target => do
      let displacement ← distance target (offset + piece.size)
      return piece.bytes ++ toBytes displacement 4

/-- The bytes of items that begin at `offset`. Branches of either kind are reported as `jmp`. -/
def link (labels : Label → Option Nat) : (offset : Nat) → List Item → Except FormError (List Byte)
  | _, [] => .ok []
  | offset, .mark _ :: rest => link labels offset rest
  | offset, .code piece :: rest =>
    match pieceBytes labels offset piece with
    | .error cause => .error ⟨.jmp, cause⟩
    | .ok bytes => do return bytes ++ (← link labels (offset + piece.size) rest)

end Encoding

open Encoding in
/-- The machine code of a listing. -/
def encode (nodes : List Node) : Except FormError (List Byte) := do
  let items ← items nodes
  link (fun l => labelOffset? l 0 items) 0 items

end Rehost.Host
