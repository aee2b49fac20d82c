import Rehost.Host.Encoding.Layout
import Rehost.Proofs.Reading

/-!
# Layout of a listing

The code of a listing consists of its instructions, each encoded on its own, one after the other; only the last four
bytes of a branch are filled in, with the distance from its end to the last definition of its label (`Laid`). There is
such code exactly if every instruction has an encoding, every label that is branched to is defined, and every distance
fits four bytes (`laid_of_encode`, `encode_of_linkable`).
-/

namespace Rehost

namespace Host

open Encoding

/-! ### Instructions on their own -/

/-- Whether an instruction has an encoding. -/
def Instr.Encodable (i : Instr) : Prop := ∃ code, piece i = .ok code

/-- Whether an instruction is a branch to this label. -/
def Instr.BranchesTo (i : Instr) (l : Label) : Prop :=
  (i.opcode = .jmp ∨ i.opcode = .jnz) ∧ i.operands.first = some (.label l)

/-- The encoding of an instruction on its own. A branch has four zeros for its distance. -/
def Instr.alone (i : Instr) : List Byte :=
  match piece i with
  | .ok code => code.bytes ++ List.replicate (if code.target.isSome then 4 else 0) 0
  | .error _ => []

/-- The encoding of a node on its own; labels take no space. -/
def Node.alone : Node → List Byte
  | .instr i => i.alone
  | .label _ => []

/-- The bytes that nodes take. -/
def codeSize (nodes : List Node) : Nat := (nodes.flatMap Node.alone).length

@[simp] theorem codeSize_nil : codeSize [] = 0 := rfl

@[simp] theorem codeSize_cons (node : Node) (rest : List Node) :
    codeSize (node :: rest) = node.alone.length + codeSize rest := by
  simp [codeSize]

@[simp] theorem codeSize_append (one two : List Node) : codeSize (one ++ two) = codeSize one + codeSize two := by
  simp [codeSize]

theorem alone_of_piece {i : Instr} {code : Piece} (written : piece i = .ok code) :
    i.alone = code.bytes ++ List.replicate (if code.target.isSome then 4 else 0) 0 := by
  rw [Instr.alone, written]

theorem length_alone {i : Instr} {code : Piece} (written : piece i = .ok code) : i.alone.length = code.size := by
  rw [alone_of_piece written, List.length_append, List.length_replicate, Piece.size]

theorem branchOpcode_isSome {opcode : Opcode} : (branchOpcode opcode).isSome ↔ opcode = .jmp ∨ opcode = .jnz := by
  cases opcode with
  | jmp => simp [branchOpcode]
  | jnz => simp [branchOpcode]
  | _ => simp [branchOpcode]

/-- The code of an instruction has a target exactly if it is a branch. -/
theorem target_of_piece {i : Instr} {code : Piece} (written : piece i = .ok code) {l : Label} :
    code.target = some l ↔ i.BranchesTo l := by
  have filled := filled_of_piece written
  rw [Instr.BranchesTo, ← branchOpcode_isSome]
  simp only [piece, filled] at written
  cases branch : branchOpcode i.opcode with
  | some opcode =>
    cases first : i.operands.first with
    | none => rw [branch, first] at written; cases written
    | some operand =>
      rw [branch, first] at written
      cases operand with
      | label target =>
        cases written
        simp
      | _ => cases written
  | none =>
    have straight : code.target = none := by
      rw [branch] at written
      cases first : i.operands.first with
      | none => rw [first] at written; cases written; rfl
      | some operand =>
        rw [first] at written
        cases second : i.operands.second with
        | none =>
          rw [second] at written
          obtain ⟨_, _, written⟩ := ok_of_bind written
          cases written; rfl
        | some source =>
          rw [second] at written
          obtain ⟨_, _, written⟩ := ok_of_bind written
          cases written; rfl
    simp [straight]

/-! ### Definitions of labels -/

/-- The last definition of a label stands after these nodes. -/
def LastDefined (nodes : List Node) (l : Label) (upto : List Node) : Prop :=
  ∃ after, nodes = upto ++ .label l :: after ∧ .label l ∉ after

theorem exists_lastDefined {nodes : List Node} {l : Label} (defined : .label l ∈ nodes) :
    ∃ upto, LastDefined nodes l upto := by
  induction nodes with
  | nil => cases defined
  | cons node rest ih =>
    by_cases later : .label l ∈ rest
    · obtain ⟨upto, after, rfl, last⟩ := ih later
      exact ⟨node :: upto, after, rfl, last⟩
    · obtain rfl : .label l = node := (List.mem_cons.mp defined).resolve_right later
      exact ⟨[], rest, rfl, later⟩

theorem LastDefined.mem {nodes upto : List Node} {l : Label} (defined : LastDefined nodes l upto) :
    .label l ∈ nodes := by
  obtain ⟨after, rfl, _⟩ := defined
  simp

namespace Encoding

theorem items_cons {node : Node} {rest : List Node} {list : List Item} (ok : items (node :: rest) = .ok list) :
    ∃ first others, item node = .ok first ∧ items rest = .ok others ∧ list = first :: others := by
  obtain ⟨first, here, ok⟩ := ok_of_bind ok
  obtain ⟨others, there, ok⟩ := ok_of_bind ok
  cases ok
  exact ⟨first, others, here, there, rfl⟩

theorem item_instr {i : Instr} {first : Item} (ok : item (.instr i) = .ok first) :
    ∃ code, piece i = .ok code ∧ first = .code code := by
  simp only [item] at ok
  split at ok
  next code written => cases ok; exact ⟨code, written, rfl⟩
  next => cases ok

theorem labelOffset?_of_not_mem {nodes : List Node} {l : Label} (absent : .label l ∉ nodes) {list : List Item}
    (ok : items nodes = .ok list) (offset : Nat) : labelOffset? l offset list = none := by
  induction nodes generalizing list offset with
  | nil => cases ok; rfl
  | cons node rest ih =>
    obtain ⟨first, others, here, there, rfl⟩ := items_cons ok
    rw [List.mem_cons, not_or] at absent
    cases node with
    | label other =>
      cases here
      have apart : other ≠ l := fun same => absent.1 (same ▸ rfl)
      simp [labelOffset?, ih absent.2 there, apart]
    | instr i =>
      obtain ⟨code, _, rfl⟩ := item_instr here
      exact ih absent.2 there _

/-- The offset of a label is that of its last definition. -/
theorem labelOffset?_of_lastDefined {nodes upto : List Node} {l : Label} (defined : LastDefined nodes l upto)
    {list : List Item} (ok : items nodes = .ok list) (offset : Nat) :
    labelOffset? l offset list = some (offset + codeSize upto) := by
  obtain ⟨after, rfl, last⟩ := defined
  induction upto generalizing list offset with
  | nil =>
    obtain ⟨first, others, here, there, rfl⟩ := items_cons ok
    cases here
    simp [labelOffset?, labelOffset?_of_not_mem last there]
  | cons node rest ih =>
    obtain ⟨first, others, here, there, rfl⟩ := items_cons ok
    cases node with
    | label other =>
      cases here
      simp [labelOffset?, ih offset there, Node.alone]
    | instr i =>
      obtain ⟨code, written, rfl⟩ := item_instr here
      simp [labelOffset?, ih _ there, Node.alone, length_alone written, Nat.add_assoc]

/-! ### Encoding every node -/

theorem items_of_encodable {nodes : List Node} (encodable : ∀ i, .instr i ∈ nodes → i.Encodable) :
    ∃ list, items nodes = .ok list := by
  induction nodes with
  | nil => exact ⟨[], rfl⟩
  | cons node rest ih =>
    obtain ⟨others, there⟩ := ih fun i member => encodable i (List.mem_cons_of_mem _ member)
    cases node with
    | label l => exact ⟨.mark l :: others, by simp [items, item, there, bind, Except.bind, pure, Except.pure]⟩
    | instr i =>
      obtain ⟨code, written⟩ := encodable i (List.mem_cons_self ..)
      exact ⟨.code code :: others, by simp [items, item, written, there, bind, Except.bind, pure, Except.pure]⟩

theorem encodable_of_items {nodes : List Node} {list : List Item} (ok : items nodes = .ok list) {i : Instr}
    (member : .instr i ∈ nodes) : i.Encodable := by
  induction nodes generalizing list with
  | nil => cases member
  | cons node rest ih =>
    obtain ⟨first, others, here, there, rfl⟩ := items_cons ok
    rcases List.mem_cons.mp member with rfl | later
    · obtain ⟨code, written, _⟩ := item_instr here
      exact ⟨code, written⟩
    · exact ih there later

/-- The first instruction without an encoding is reported. -/
theorem items_of_error {before after : List Node} {i : Instr} {cause : Cause}
    (encodable : ∀ j, .instr j ∈ before → j.Encodable) (refused : piece i = .error cause) :
    items (before ++ .instr i :: after) = .error ⟨i.opcode, cause⟩ := by
  induction before with
  | nil => simp [items, item, refused, bind, Except.bind]
  | cons node rest ih =>
    have later := ih fun j member => encodable j (List.mem_cons_of_mem _ member)
    cases node with
    | label l => simp [items, item, later, bind, Except.bind]
    | instr j =>
      obtain ⟨code, written⟩ := encodable j (List.mem_cons_self ..)
      simp [items, item, written, later, bind, Except.bind]

end Encoding

/-! ### Linked code -/

/-- Whether a distance fits four bytes. -/
def InReach (distance : Int) : Prop := -0x80000000 ≤ distance ∧ distance ≤ 0x7fffffff

/-- The bytes of a node of a listing, given the nodes before it: the encoding on its own, in which a branch has the
distance from its end to the last definition of its label as its last four bytes, the least significant first. -/
inductive Linked (nodes before : List Node) : Node → List Byte → Prop where
  | label (l : Label) : Linked nodes before (.label l) []
  | straight {i : Instr} (encodable : i.Encodable) (straight : ∀ l, ¬ i.BranchesTo l) :
      Linked nodes before (.instr i) i.alone
  | branch {i : Instr} {l : Label} {upto : List Node} {opcode blank distance : List Byte} (encodable : i.Encodable)
      (branches : i.BranchesTo l) (defined : LastDefined nodes l upto) (alone : i.alone = opcode ++ blank)
      (blankSize : blank.length = 4) (distanceSize : distance.length = 4)
      (value : (BitVec.ofNat 32 (ofBytes distance)).toInt = codeSize upto - codeSize (before ++ [.instr i])) :
      Linked nodes before (.instr i) (opcode ++ distance)

/-- The code of the rest of a listing, given the nodes before it: that of its nodes, in order. -/
inductive Laid (nodes : List Node) : List Node → List Node → List Byte → Prop where
  | nil {before : List Node} : Laid nodes before [] []
  | cons {before rest : List Node} {node : Node} {bytes code : List Byte} (first : Linked nodes before node bytes)
      (others : Laid nodes (before ++ [node]) rest code) : Laid nodes before (node :: rest) (bytes ++ code)

theorem Linked.length {nodes before : List Node} {node : Node} {bytes : List Byte}
    (linked : Linked nodes before node bytes) : bytes.length = node.alone.length := by
  cases linked with
  | label l => rfl
  | straight encodable straight => rfl
  | branch encodable branches defined alone blankSize distanceSize value =>
    simp [Node.alone, alone, blankSize, distanceSize]

theorem Laid.length {nodes before rest : List Node} {code : List Byte} (laid : Laid nodes before rest code) :
    code.length = codeSize rest := by
  induction laid with
  | nil => rfl
  | cons first others ih => rw [List.length_append, first.length, ih, codeSize_cons]

/-- Where linked code differs from the encodings of its nodes on their own, there is the distance of a branch. -/
theorem Laid.differs {nodes before rest : List Node} {code : List Byte} (laid : Laid nodes before rest code) {k : Nat}
    (other : code[k]? ≠ (rest.flatMap Node.alone)[k]?) :
    ∃ upto i after l, rest = upto ++ .instr i :: after ∧ i.BranchesTo l ∧
      codeSize (upto ++ [.instr i]) ≤ k + 4 ∧ k < codeSize (upto ++ [.instr i]) := by
  induction laid generalizing k with
  | nil => exact absurd rfl other
  | @cons before rest node bytes code first others ih =>
    have size := first.length
    rw [List.flatMap_cons] at other
    by_cases here : k < bytes.length
    · rw [List.getElem?_append_left here, List.getElem?_append_left (size ▸ here)] at other
      cases first with
      | label l => exact absurd rfl other
      | straight encodable straight => exact absurd rfl other
      | @branch i l upto opcode blank distance encodable branches defined alone blankSize distanceSize value =>
        refine ⟨[], i, rest, l, rfl, branches, ?_⟩
        -- The opcode is the same on both sides.
        have beyond : opcode.length ≤ k := by
          apply Nat.le_of_not_lt
          intro early
          simp [Node.alone, alone, List.getElem?_append_left early] at other
        have total : (opcode ++ distance).length = opcode.length + 4 := by rw [List.length_append, distanceSize]
        simp only [List.nil_append, codeSize_cons, codeSize_nil, ← size]
        omega
    · rw [Nat.not_lt] at here
      rw [List.getElem?_append_right here, List.getElem?_append_right (size ▸ here), ← size] at other
      obtain ⟨upto, i, after, l, rfl, branches, low, high⟩ := ih other
      refine ⟨node :: upto, i, after, l, rfl, branches, ?_⟩
      simp only [List.cons_append, codeSize_cons, ← size]
      omega

/-! ### What can be linked -/

/-- What a listing needs to have code. -/
structure Linkable (nodes : List Node) : Prop where
  encodable : ∀ i, .instr i ∈ nodes → i.Encodable
  defined : ∀ i l, .instr i ∈ nodes → i.BranchesTo l → .label l ∈ nodes
  reaches : ∀ before i after l upto, nodes = before ++ .instr i :: after → i.BranchesTo l →
    LastDefined nodes l upto → InReach (codeSize upto - codeSize (before ++ [.instr i]))

/-- Offsets of labels as the listing defines them. -/
def Resolves (nodes : List Node) (labels : Label → Option Nat) : Prop :=
  (∀ l upto, LastDefined nodes l upto → labels l = some (codeSize upto)) ∧
    ∀ l, .label l ∉ nodes → labels l = none

theorem resolves_of_items {nodes : List Node} {list : List Item} (ok : items nodes = .ok list) :
    Resolves nodes fun l => labelOffset? l 0 list := by
  constructor
  · intro l upto defined
    simpa using labelOffset?_of_lastDefined defined ok 0
  · intro l absent
    exact labelOffset?_of_not_mem absent ok 0

theorem distance_value {target stop : Nat} {displacement : BitVec 32} (ok : distance target stop = .ok displacement) :
    InReach ((target : Int) - stop) ∧
      (BitVec.ofNat 32 (ofBytes (toBytes displacement 4))).toInt = (target : Int) - stop := by
  unfold distance at ok
  simp only at ok
  split at ok
  next fits =>
    cases ok
    refine ⟨fits, ?_⟩
    rw [show BitVec.ofNat 32 _ = _ from ofNat_ofBytes_toBytes _ 4, BitVec.setWidth_eq, BitVec.toInt_ofInt]
    exact Int.bmod_eq_of_le (by omega) (by omega)
  next => cases ok

/-- The bytes of a node stand after those of the nodes before it. -/
theorem Laid.code_at {nodes before rest : List Node} {code : List Byte} (laid : Laid nodes before rest code)
    {upto after : List Node} {node : Node} (split : rest = upto ++ node :: after) :
    ∃ front bytes back, code = front ++ (bytes ++ back) ∧ front.length = codeSize upto ∧
      Linked nodes (before ++ upto) node bytes := by
  induction upto generalizing rest before code with
  | nil =>
    subst split
    cases laid with
    | @cons _ _ _ bytes back first others => exact ⟨[], bytes, back, rfl, rfl, by simpa using first⟩
  | cons earlier upto ih =>
    subst split
    cases laid with
    | @cons _ _ _ skipped _ first others =>
      obtain ⟨front, bytes, back, rfl, size, linked⟩ := ih others rfl
      refine ⟨skipped ++ front, bytes, back, by simp, ?_, by simpa using linked⟩
      rw [List.length_append, first.length, size, codeSize_cons]

theorem Laid.linked_at {nodes before rest : List Node} {code : List Byte} (laid : Laid nodes before rest code)
    {upto after : List Node} {node : Node} (split : rest = upto ++ node :: after) :
    ∃ bytes, Linked nodes (before ++ upto) node bytes := by
  obtain ⟨front, bytes, back, -, -, linked⟩ := laid.code_at split
  exact ⟨bytes, linked⟩

section
variable {nodes : List Node} {labels : Label → Option Nat} (resolves : Resolves nodes labels)
include resolves

theorem linked_of_pieceBytes {before : List Node} {i : Instr} {code : Piece} {bytes : List Byte}
    (written : piece i = .ok code) (ok : pieceBytes labels (codeSize before) code = .ok bytes) :
    Linked nodes before (.instr i) bytes := by
  have alone := alone_of_piece written
  have branches (l : Label) : code.target = some l ↔ i.BranchesTo l := target_of_piece written
  have stop : codeSize (before ++ [.instr i]) = codeSize before + code.size := by
    simp [Node.alone, length_alone written]
  cases target : code.target with
  | none =>
    simp only [pieceBytes, target] at ok
    cases ok
    have same : i.alone = code.bytes := by simp [alone, target]
    rw [← same]
    refine .straight ⟨code, written⟩ fun l branch => ?_
    rw [(branches l).mpr branch] at target
    cases target
  | some l =>
    have branch := (branches l).mp target
    by_cases present : .label l ∈ nodes
    · obtain ⟨upto, defined⟩ := exists_lastDefined present
      simp only [pieceBytes, target, resolves.1 l upto defined] at ok
      obtain ⟨displacement, covered, ok⟩ := ok_of_bind ok
      cases ok
      have opens : i.alone = code.bytes ++ List.replicate 4 0 := by simp [alone, target]
      refine .branch ⟨code, written⟩ branch defined opens rfl (length_toBytes ..) ?_
      rw [(distance_value covered).2, stop]
    · simp only [pieceBytes, target, resolves.2 l present] at ok
      cases ok

theorem laid_of_link {rest : List Node} {list : List Item} (ok : items rest = .ok list) {before : List Node}
    {code : List Byte} (linked : link labels (codeSize before) list = .ok code) : Laid nodes before rest code := by
  induction rest generalizing list before code with
  | nil =>
    cases ok
    cases linked
    exact .nil
  | cons node rest ih =>
    obtain ⟨first, others, here, there, rfl⟩ := items_cons ok
    cases node with
    | label l =>
      cases here
      have later : link labels (codeSize (before ++ [.label l])) others = .ok code := by
        simpa [link, Node.alone] using linked
      exact .cons (.label l) (ih there later)
    | instr i =>
      obtain ⟨piece, written, rfl⟩ := item_instr here
      simp only [link] at linked
      split at linked
      next => cases linked
      next bytes filled =>
        obtain ⟨code, later, linked⟩ := ok_of_bind linked
        cases linked
        refine .cons (linked_of_pieceBytes resolves written filled) (ih there ?_)
        simpa [Node.alone, length_alone written] using later

/-- Every node of a listing that has what it needs is given its bytes. -/
theorem link_of_linkable (linkable : Linkable nodes) {before rest : List Node} (split : nodes = before ++ rest)
    {list : List Item} (ok : items rest = .ok list) : ∃ code, link labels (codeSize before) list = .ok code := by
  induction rest generalizing list before with
  | nil =>
    cases ok
    exact ⟨[], rfl⟩
  | cons node rest ih =>
    obtain ⟨first, others, here, there, rfl⟩ := items_cons ok
    have extended : nodes = before ++ [node] ++ rest := by simp [split]
    obtain ⟨later, linked⟩ := ih extended there
    cases node with
    | label l =>
      cases here
      exact ⟨later, by simpa [link, Node.alone] using linked⟩
    | instr i =>
      obtain ⟨code, written, rfl⟩ := item_instr here
      obtain ⟨bytes, filled⟩ : ∃ bytes, pieceBytes labels (codeSize before) code = .ok bytes := by
        cases target : code.target with
        | none => exact ⟨code.bytes, by simp [pieceBytes, target]⟩
        | some l =>
          have branch := (target_of_piece written).mp target
          obtain ⟨upto, defined⟩ := exists_lastDefined (linkable.defined i l (by simp [split]) branch)
          have reaches := linkable.reaches before i rest l upto split branch defined
          simp only [codeSize_append, codeSize_cons, codeSize_nil, Node.alone, length_alone written, Nat.add_zero]
            at reaches
          simp only [pieceBytes, target, resolves.1 l upto defined, distance, if_pos (show _ ∧ _ from reaches)]
          exact ⟨_, rfl⟩
      refine ⟨bytes ++ later, ?_⟩
      simp only [codeSize_append, codeSize_cons, codeSize_nil, Node.alone, length_alone written, Nat.add_zero] at linked
      simp [link, filled, linked, bind, Except.bind, pure, Except.pure]

end

/-- Code of a listing is laid out as its nodes say, and the listing has all that it needs. -/
theorem laid_of_encode {nodes : List Node} {code : List Byte} (ok : encode nodes = .ok code) :
    Laid nodes [] nodes code ∧ Linkable nodes := by
  obtain ⟨list, itemised, linked⟩ := ok_of_bind ok
  have resolves := resolves_of_items itemised
  have laid : Laid nodes [] nodes code := laid_of_link resolves itemised linked
  refine ⟨laid, fun i => encodable_of_items itemised, fun i l member branches => ?_,
    fun before i after l upto split branches defined => ?_⟩
  · obtain ⟨before, after, split⟩ := List.append_of_mem member
    obtain ⟨bytes, linked⟩ := laid.linked_at split
    cases linked with
    | straight encodable straight => exact absurd branches (straight l)
    | branch encodable names defined =>
      obtain rfl := Operand.label.inj (Option.some.inj (names.2.symm.trans branches.2))
      exact defined.mem
  · obtain ⟨bytes, linked⟩ := laid.linked_at split
    cases linked with
    | straight encodable straight => exact absurd branches (straight l)
    | branch encodable names last alone blankSize distanceSize value =>
      obtain rfl := Operand.label.inj (Option.some.inj (names.2.symm.trans branches.2))
      have same := Option.some.inj ((resolves.1 _ _ defined).symm.trans (resolves.1 _ _ last))
      rw [List.nil_append] at value
      rw [same, ← value]
      exact ⟨BitVec.le_toInt _, Int.le_of_lt_add_one BitVec.toInt_lt⟩

theorem encode_of_linkable {nodes : List Node} (linkable : Linkable nodes) : ∃ code, encode nodes = .ok code := by
  obtain ⟨list, itemised⟩ := items_of_encodable linkable.encodable
  have whole : nodes = [] ++ nodes := rfl
  obtain ⟨code, linked⟩ := link_of_linkable (resolves_of_items itemised) linkable whole itemised
  refine ⟨code, ?_⟩
  simp only [encode, itemised]
  exact linked

/-- A place in the code of a listing where an instruction begins, or where it ends. -/
def Boundary (nodes : List Node) (offset : Nat) : Prop :=
  offset = codeSize nodes ∨ ∃ before i after, nodes = before ++ .instr i :: after ∧ offset = codeSize before

theorem boundary_of_append (before after : List Node) : Boundary (before ++ after) (codeSize before) := by
  induction after generalizing before with
  | nil => exact .inl (by simp)
  | cons node rest ih =>
    cases node with
    | instr i => exact .inr ⟨before, i, rest, rfl, rfl⟩
    | label l =>
      have later := ih (before ++ [.label l])
      simpa [Node.alone] using later

/-- A listing has code exactly if each instruction has an encoding, each label branched to is defined, and each distance
fits. The code is that of the instructions on their own, in order, except that each branch has its distance to the last
definition of its label; labels stand where instructions begin or the code ends, and only the last four bytes of
branches are not those of the instructions on their own. The first instruction without an encoding is reported before
anything else. -/
theorem encode_layout (nodes : List Node) :
    ((∃ code, encode nodes = .ok code) ↔ Linkable nodes) ∧
    (∀ code, encode nodes = .ok code →
      Laid nodes [] nodes code ∧ code.length = codeSize nodes ∧
      (∀ before l after, nodes = before ++ .label l :: after → Boundary nodes (codeSize before)) ∧
      ∀ k, code[k]? ≠ (nodes.flatMap Node.alone)[k]? →
        ∃ before i after l, nodes = before ++ .instr i :: after ∧ i.BranchesTo l ∧
          codeSize (before ++ [.instr i]) ≤ k + 4 ∧ k < codeSize (before ++ [.instr i])) ∧
    ∀ before i after cause, nodes = before ++ .instr i :: after → (∀ j, .instr j ∈ before → j.Encodable) →
      piece i = .error cause → encode nodes = .error ⟨i.opcode, cause⟩ := by
  refine ⟨⟨?_, encode_of_linkable⟩, fun code ok => ?_, fun before i after cause split encodable refused => ?_⟩
  · rintro ⟨code, ok⟩
    exact (laid_of_encode ok).2
  · have laid := (laid_of_encode ok).1
    refine ⟨laid, laid.length, fun before l after split => ?_, fun k other => laid.differs other⟩
    rw [split]
    exact boundary_of_append before (.label l :: after)
  · rw [encode, split, items_of_error encodable refused]
    rfl

/-- A branch over another that goes back; the first has its label defined twice. -/
def sampleBranches : List Node :=
  [.label 0, .instr (.one .jmp (.label 1)), .label 1, .instr (.bare (.op .nop)), .instr (.one .jnz (.label 0)),
   .label 1]

theorem encode_layout_sample :
    encode sampleBranches = .ok [0xe9, 0x07, 0, 0, 0, 0x90, 0x0f, 0x85, 0xf4, 0xff, 0xff, 0xff] ∧
    Laid sampleBranches [] sampleBranches [0xe9, 0x07, 0, 0, 0, 0x90, 0x0f, 0x85, 0xf4, 0xff, 0xff, 0xff] ∧
    encode [.instr (.one .jmp (.label 7)), .instr (.one .push (.imm 0 .b8))] = .error ⟨.push, .stackOperand⟩ := by
  have ok : encode sampleBranches = .ok [0xe9, 0x07, 0, 0, 0, 0x90, 0x0f, 0x85, 0xf4, 0xff, 0xff, 0xff] := by
    obtain ⟨code, ok⟩ : ∃ code, encode sampleBranches = .ok code := exists_of_isOk (by decide +kernel)
    have same : (encode sampleBranches).toOption =
        some [0xe9, 0x07, 0, 0, 0, 0x90, 0x0f, 0x85, 0xf4, 0xff, 0xff, 0xff] := by decide +kernel
    rw [ok] at same ⊢
    exact congrArg Except.ok (Option.some.inj same)
  refine ⟨ok, ((encode_layout sampleBranches).2.1 _ ok).1, ?_⟩
  refine (encode_layout _).2.2 [.instr (.one .jmp (.label 7))] (.one .push (.imm 0 .b8)) [] .stackOperand rfl ?_ rfl
  intro j member
  cases List.mem_singleton.mp member
  exact ⟨_, rfl⟩

end Host

end Rehost
