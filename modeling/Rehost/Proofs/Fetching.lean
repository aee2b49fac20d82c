import Rehost.Machine.Code
import Rehost.Proofs.HighBytes
import Rehost.Proofs.Passage

/-!
# Running the code of a listing

Where an instruction of a listing stands, its code holds one that does the same (`fetch?_of_encode`): the normal form
of the instruction, or a branch to the offset at which the label of the branch was last defined. A run of the code
therefore goes the way of a run of the listing, in which labels are steps of their own, and comes to the same end
(`runCode_of_run`).
-/

namespace Rehost

/-- An instruction, and not one that moves a second byte on the stack or off it. -/
def Host.Node.Proper : Host.Node → Prop
  | .instr i => ¬ i.StacksHigh
  | .label _ => False

namespace Host.Encoding

/-! ### Reading branches -/

/-- Bytes that are read as one branch, whatever follows them. -/
structure Leads (bytes : List Byte) (branch : Branch) : Prop where
  refused : ∀ rest, decode? (bytes ++ rest) = none
  decodes : ∀ rest, decodeBranch? (bytes ++ rest) = some (branch, rest)
  short : bytes.length ≤ 15

theorem readSigned_append {distance : List Byte} (size : distance.length = 4) (rest : List Byte) :
    readSigned 4 32 (distance ++ rest) = some (BitVec.ofNat 32 (ofBytes distance), rest) := by
  have long : 4 ≤ (distance ++ rest).length := by simp [size]
  rw [readSigned, if_pos long, List.take_left' size, List.drop_left' size]
  simp

theorem isOpcode_branch {opcode : Opcode} {opens : List Byte} (named : branchOpcode opcode = some opens) :
    ∃ first more, opens = first :: more ∧ IsOpcode first ∧ more.length ≤ 1 := by
  cases opcode with
  | jmp =>
    cases named
    exact ⟨0xe9, [], rfl, by decide, by decide⟩
  | jnz =>
    cases named
    exact ⟨0x0f, [0x85], rfl, by decide, by decide⟩
  | _ => cases named

theorem readBranchOpcode_append {opcode : Opcode} {opens : List Byte} (named : branchOpcode opcode = some opens)
    (rest : List Byte) : readBranchOpcode (opens ++ rest) = some (opcode, rest) := by
  cases opcode with
  | jmp => cases named; rfl
  | jnz => cases named; rfl
  | _ => cases named

/-- No other instruction begins like a branch. -/
theorem instruction_branch {opcode : Opcode} {opens more : List Byte} {first : Byte}
    (named : branchOpcode opcode = some opens) (begins : opens = first :: more) (lead : Prefix) (rest : List Byte) :
    Header.instruction { lead } first rest = none := by
  cases opcode with
  | jmp => cases named; cases begins; rfl
  | jnz => cases named; cases begins; rfl
  | _ => cases named

/-- A branch with its displacement is read back. -/
theorem leads_of_branchOpcode {opcode : Opcode} {opens distance : List Byte} (named : branchOpcode opcode = some opens)
    (size : distance.length = 4) (lead : Prefix) :
    Leads ((leadByte lead).toList ++ opens ++ distance) ⟨lead, opcode, BitVec.ofNat 32 (ofBytes distance)⟩ := by
  obtain ⟨first, more, begins, opcodeFirst, few⟩ := isOpcode_branch named
  have header (rest : List Byte) : readHeader {} ((leadByte lead).toList ++ opens ++ distance ++ rest) =
      ({ lead }, opens ++ (distance ++ rest)) := by
    rw [List.append_assoc, List.append_assoc, readHeader_lead, begins]
    exact readHeader_rex opcodeFirst none _
  constructor
  · intro rest
    rw [decode?, header, begins]
    exact instruction_branch named begins lead _
  · intro rest
    simp only [decodeBranch?, header, readBranchOpcode_append named]
    simp [readSigned_append size]
  · have one : (leadByte lead).toList.length ≤ 1 := by cases lead <;> decide
    simp only [List.length_append, size, begins, List.length_cons]
    omega

end Host.Encoding

namespace Machine

open Host (Instr Label LastDefined Node codeSize encode laid_of_encode alone_of_piece piece_of_listing)
open Host.Encoding

/-! ### Fetching -/

section
variable {code bytes back : List Byte} {offset : Nat}

/-- What an instruction is read from, if it has no more bytes than it may have. -/
theorem take_window (short : bytes.length ≤ longest) (here : code.drop offset = bytes ++ back) :
    (code.drop offset).take longest = bytes ++ back.take (longest - bytes.length) := by
  rw [here, List.take_append, List.take_of_length_le short]

theorem fetch?_of_faithful {i : Instr} (faithful : Faithful bytes i) (here : code.drop offset = bytes ++ back) :
    fetch? code offset = some (i, offset + bytes.length) := by
  simp only [fetch?, take_window faithful.short here, faithful.decodes, List.length_append, Nat.add_sub_cancel]

theorem displaced?_of_distance {target : Nat} {displacement : BitVec 32}
    (value : displacement.toInt = (target : Int) - offset) : displaced? offset displacement = some target := by
  have lands : (offset : Int) + displacement.toInt = target := by omega
  simp [displaced?, lands]

theorem fetch?_of_leads {branch : Branch} (leads : Leads bytes branch) (here : code.drop offset = bytes ++ back)
    {target : Nat} (value : branch.displacement.toInt = (target : Int) - (offset + bytes.length : Nat)) :
    fetch? code offset = some
      ({ lead := branch.lead, opcode := branch.opcode, operands := { first := some (.label target) } },
        offset + bytes.length) := by
  have lands := displaced?_of_distance value
  simp only [fetch?, take_window leads.short here, leads.refused, leads.decodes, List.length_append]
  simp [lands]

end

/-- What code holds for an instruction of a listing. -/
inductive Reads (nodes : List Node) (i : Instr) : Instr → Prop where
  | straight {written : Piece} (straight : branchOpcode i.opcode = none) (ok : piece i = .ok written) :
      Reads nodes i i.normal
  | branch {opens : List Byte} {l : Label} {upto : List Node} (named : branchOpcode i.opcode = some opens)
      (operands : i.operands = { first := some (.label l) }) (defined : LastDefined nodes l upto) :
      Reads nodes i { i with operands := { first := some (.label (codeSize upto)) } }

/-- The code of a branch on its own. -/
theorem piece_of_branch {i : Instr} {opens : List Byte} {written : Piece} (named : branchOpcode i.opcode = some opens)
    (ok : piece i = .ok written) :
    ∃ l, i.operands = { first := some (.label l) } ∧
      written = { bytes := (leadByte i.lead).toList ++ opens, target := some l } := by
  have filled := filled_of_piece ok
  have unary : arity i.opcode = 1 := by
    obtain jmp | jnz := Host.branchOpcode_isSome.mp (Option.isSome_of_eq_some named)
    · rw [jmp]; rfl
    · rw [jnz]; rfl
  rw [unary] at filled
  obtain ⟨operand, operands⟩ := filled_one filled
  simp only [piece, unary, named, operands] at ok
  cases operand with
  | label l =>
    cases ok
    exact ⟨l, operands, rfl⟩
  | _ => cases ok

/-- Registers of which the second byte is meant have eight bits, except on the stack. -/
theorem low_of_piece {i : Instr} {written : Piece} (proper : ¬ i.StacksHigh) (ok : piece i = .ok written)
    (r : Host.RegOperand) (member : .reg r ∈ i.operands.operands) (high : r.high = true) : r.width = .b8 :=
  (named_of_piece ok proper ⟨member, high⟩).byte.1

/-- The code of a listing holds its instructions where they stand. -/
theorem fetch?_of_encode {before after : List Node} {i : Instr} {code : List Byte} (proper : ¬ i.StacksHigh)
    (encoded : encode (before ++ .instr i :: after) = .ok code) :
    ∃ read, Reads (before ++ .instr i :: after) i read ∧
      fetch? code (codeSize before) = some (read, codeSize (before ++ [.instr i])) := by
  obtain ⟨front, bytes, back, rfl, size, linked⟩ := (laid_of_encode encoded).1.code_at rfl
  have here : (front ++ (bytes ++ back)).drop (codeSize before) = bytes ++ back := List.drop_left' size
  have stop : codeSize before + bytes.length = codeSize (before ++ [.instr i]) := by
    simp [linked.length]
  obtain ⟨written, ok⟩ := piece_of_listing encoded
  cases branch : branchOpcode i.opcode with
  | none =>
    obtain ⟨straight, faithful⟩ := faithful_of_piece branch (low_of_piece proper ok) ok
    refine ⟨i.normal, .straight branch ok, ?_⟩
    rw [← stop]
    refine fetch?_of_faithful ?_ here
    cases linked with
    | straight encodable noBranch => simpa [alone_of_piece ok, straight] using faithful
    | branch encodable branches =>
      rw [(Host.target_of_piece ok).mpr branches] at straight
      cases straight
  | some opens =>
    obtain ⟨l, operands, rfl⟩ := piece_of_branch branch ok
    cases linked with
    | straight encodable noBranch => exact absurd ((Host.target_of_piece ok).mp rfl) (noBranch l)
    | @branch _ target upto opcode blank distance encodable branches defined alone blankSize distanceSize value =>
      obtain rfl : l = target := by simpa [operands] using branches.2
      obtain ⟨rfl, -⟩ : (leadByte i.lead).toList ++ opens = opcode ∧ _ = blank :=
        List.append_inj' ((alone_of_piece ok).symm.trans alone) (by simp [blankSize])
      refine ⟨_, .branch branch operands defined, ?_⟩
      rw [List.nil_append, ← stop] at value
      rw [← stop]
      exact fetch?_of_leads (leads_of_branchOpcode branch distanceSize i.lead) here value

theorem length_alone_pos {i : Instr} {written : Piece} (proper : ¬ i.StacksHigh) (ok : piece i = .ok written) :
    1 ≤ i.alone.length := by
  rw [Host.length_alone ok, Piece.size]
  cases branch : branchOpcode i.opcode with
  | none =>
    have nonempty := (faithful_of_piece branch (low_of_piece proper ok) ok).2.nonempty
    omega
  | some opens =>
    obtain ⟨l, _, rfl⟩ := piece_of_branch branch ok
    simp

/-! ### Steps -/

variable {σ : Type}

/-- The same step of a listing and of its code. A branch goes to a label there, and here to its offset. -/
inductive Alike (nodes : List Node) : Option (σ × State × Next) → Option (σ × State × Next) → Prop where
  | stuck : Alike nodes none none
  | onward {world : σ} {s : State} : Alike nodes (some (world, s, .onward)) (some (world, s, .onward))
  | leave {world : σ} {s : State} : Alike nodes (some (world, s, .leave)) (some (world, s, .leave))
  | goto {world : σ} {s : State} {l : Label} {upto : List Node} (defined : LastDefined nodes l upto) :
      Alike nodes (some (world, s, .goto l)) (some (world, s, .goto (codeSize upto)))

section
variable {env : Env σ} {nodes : List Node} {i read : Instr}

theorem step_ne_goto (straight : branchOpcode i.opcode = none) (world world' : σ) (s s' : State) (l : Label) :
    step env i world s ≠ some (world', s', .goto l) := by
  intro stepped
  unfold step at stepped
  split at stepped
  all_goals simp_all [branchOpcode, Option.bind_eq_some_iff]

theorem alike_of_reads (reads : Reads nodes i read) (world : σ) (s : State) :
    Alike nodes (step env i world s) (step env read world s) := by
  cases reads with
  | straight straight ok =>
    rw [step_normal ok]
    cases stepped : step env i world s with
    | none => exact .stuck
    | some result =>
      obtain ⟨world', s', next⟩ := result
      cases next with
      | onward => exact .onward
      | leave => exact .leave
      | goto l => exact absurd stepped (step_ne_goto straight world world' s s' l)
  | branch named operands defined =>
    obtain ⟨lead, opcode, slots⟩ := i
    cases operands
    cases opcode with
    | jmp => exact .goto defined
    | jnz =>
      simp only [step]
      split
      next => exact .onward
      next => exact .goto defined
    | _ => cases named

end

/-! ### Runs -/

section
variable {env : Env σ} {nodes : List Node} {code : List Byte} {outcome : Outcome σ}

/-- More fuel does not change how a run has ended. -/
theorem runCode_of_le {fuel more : Nat} (le : fuel ≤ more) {cursor : Cursor σ}
    (ended : runCode env code fuel cursor = outcome) (finished : outcome ≠ .unfinished) :
    runCode env code more cursor = outcome := by
  induction fuel generalizing more cursor with
  | zero => exact absurd ended.symm finished
  | succ fuel ih =>
    obtain ⟨more, rfl⟩ : ∃ n, more = n + 1 := ⟨more - 1, by omega⟩
    rw [runCode] at ended ⊢
    split at ended
    next => exact ended
    next =>
      split at ended
      next => exact ended
      next => exact ih (by omega) ended
      next => exact ih (by omega) ended
      next => exact ended

/-- Where a branch goes in a listing. -/
theorem after?_of_lastDefined {l : Label} {upto : List Node} (defined : LastDefined nodes l upto) :
    ∃ rest, after? l nodes = some rest ∧ nodes = (upto ++ [.label l]) ++ rest := by
  obtain ⟨rest, rfl, last⟩ := defined
  refine ⟨rest, after?_append_label ?_, by simp⟩
  rintro node member rfl
  exact last member

theorem fetch?_end (encoded : encode nodes = .ok code) : fetch? code (codeSize nodes) = none := by
  have size := (laid_of_encode encoded).1.length
  rw [fetch?, ← size, List.drop_length]
  rfl

/-- The code of a listing comes to the end that the listing comes to. -/
theorem runCode_of_run (encoded : encode nodes = .ok code) (proper : ∀ i, .instr i ∈ nodes → ¬ i.StacksHigh)
    {fuel : Nat} {before rest : List Node} (split : nodes = before ++ rest) {world : σ} {s : State}
    (ended : run env nodes fuel ⟨rest, world, s⟩ = outcome) (finished : outcome ≠ .unfinished) :
    runCode env code fuel ⟨codeSize before, world, s⟩ = outcome := by
  induction fuel generalizing before rest world s with
  | zero => exact absurd ended.symm finished
  | succ fuel ih =>
    rw [run] at ended
    cases rest with
    | nil =>
      rw [List.append_nil] at split
      rw [runCode, ← split, fetch?_end encoded]
      exact ended
    | cons node rest =>
      have passed : nodes = (before ++ [node]) ++ rest := by simp [split]
      cases node with
      | label l =>
        -- The code stands still while the listing passes a label.
        have still : codeSize (before ++ [.label l]) = codeSize before := by simp [Node.alone]
        have ended := ih passed ended
        rw [still] at ended
        exact runCode_of_le (Nat.le_succ fuel) ended finished
      | instr i =>
        obtain ⟨read, reads, fetched⟩ := fetch?_of_encode (proper i (by simp [split])) (split ▸ encoded)
        rw [← split] at reads
        rw [runCode, fetched]
        have alike : Alike nodes (step env i world s) (step env read world s) := alike_of_reads reads world s
        simp only [advance] at ended ⊢
        generalize step env i world s = one at alike ended
        generalize step env read world s = two at alike ⊢
        cases alike with
        | stuck => exact ended
        | leave => exact ended
        | onward => exact ih passed ended
        | goto defined =>
          obtain ⟨target, found, split⟩ := after?_of_lastDefined defined
          simp only [found] at ended
          simpa [Node.alone] using ih split ended

end

/-! ### Whole listings -/

/-- What a listing needs so that as many steps are enough for its code as it has bytes. -/
structure Runnable (nodes : List Node) : Prop where
  proper : ∀ i, .instr i ∈ nodes → ¬ i.StacksHigh
  dense : (∀ i, .instr i ∈ nodes → i.Encodable) → nodes.length ≤ codeSize nodes

theorem Runnable.append {one two : List Node} (first : Runnable one) (second : Runnable two) :
    Runnable (one ++ two) where
  proper i member := (List.mem_append.mp member).elim (first.proper i) (second.proper i)
  dense encodable := by
    have left := first.dense fun i member => encodable i (List.mem_append_left _ member)
    have right := second.dense fun i member => encodable i (List.mem_append_right _ member)
    rw [List.length_append, Host.codeSize_append]
    omega

theorem Runnable.of_proper {nodes : List Node} (proper : ∀ node ∈ nodes, node.Proper) : Runnable nodes where
  proper i member := proper _ member
  dense encodable := by
    induction nodes with
    | nil => exact Nat.le_refl 0
    | cons node rest ih =>
      obtain ⟨first, others⟩ := List.forall_mem_cons.mp proper
      have later := ih others fun i member => encodable i (List.mem_cons_of_mem _ member)
      cases node with
      | label l => exact first.elim
      | instr i =>
        obtain ⟨written, ok⟩ := encodable i (List.mem_cons_self ..)
        have here : 1 ≤ (Node.instr i).alone.length := length_alone_pos first ok
        rw [List.length_cons, Host.codeSize_cons]
        omega

end Machine

end Rehost
