import Rehost.Access
import Rehost.Host.Encoding.Layout
import Rehost.Queue
import Rehost.Usage

/-!
# Lowering

A compiled block is entered with the address of a context as its first argument. Entry code saves
registers, moves the address into the base register and loads the registers that the body names; exit
code writes them back, together with the flags that the body changes. A memory operand of the body
becomes a round trip: registers are written back, the address goes to a slot of the context, and calls
bring the value into another slot and take it away from there, around the same instruction with that
slot as its operand. A failed call leads to the fault exit, which returns a status of its own.
-/

namespace Rehost

open Host (Instr Node Operand)
open Guest (Context)

namespace Lowering

/-- The label of the code that restores registers and returns. -/
def epilog : Host.Label := 0

/-- The label of the fault exit. -/
def faultExit : Host.Label := 1

/-- A scratch register that is never the base. -/
def scratch (usage : Usage) : Reg := if usage.base = Reg.rax then .rcx else .rax

/-- A slot of the context, whole. -/
def slot (usage : Usage) (s : Context.Slot) : Operand := .based usage.base s.offset .b64

def op (operation : Operation) (dst src : Operand) : Node := .instr (.two (.op operation) dst src)

def push (operand : Operand) : Node := .instr (.one .push operand)

def pop (operand : Operand) : Node := .instr (.one .pop operand)

def constant (value : Word) : Operand := .imm value .b64

/-- Flags are taken from the context if the body reads some, or changes some but not all. -/
def seedsFlags (usage : Usage) : Bool :=
  usage.flagsIn != 0 || (usage.flagsOut != 0 && usage.flagsOut &&& Flag.status != Flag.status)

def loadRegisters (usage : Usage) : List Node :=
  usage.read.toList.map fun r => op .mov (.full r) (slot usage (.gp r))

def storeRegisters (usage : Usage) : List Node :=
  usage.read.toList.map fun r => op .mov (slot usage (.gp r)) (.full r)

/-! ### Entry -/

def seedFlags (usage : Usage) : List Node :=
  [push (slot usage .flags), op .and (.based .rsp 0 .b64) (constant Flag.status),
   .instr (.bare .popfq)]

def entry (usage : Usage) : List Node :=
  usage.saved.toList.map (fun r => push (.full r)) ++
  (if Host.Convention.firstArgument = usage.base then []
   else [op .mov (.full usage.base) (.full Host.Convention.firstArgument)]) ++
  (if seedsFlags usage then seedFlags usage else []) ++
  loadRegisters usage

/-! ### Memory operands -/

/-- Puts flags on the stack and registers into the context. -/
def syncOut (usage : Usage) : List Node := .instr (.bare .pushfq) :: storeRegisters usage

/-- Takes registers from the context and flags off the stack. -/
def syncIn (usage : Usage) : List Node := loadRegisters usage ++ [.instr (.bare .popfq)]

/-- Whether the base has to be kept across a call by hand. -/
def keepsBase (usage : Usage) : Bool := !Host.Convention.calleeSaved.contains usage.base

/-- Stack bytes in use before a call, the return address of the block included: saved registers, flags
and perhaps the base. -/
def depth (usage : Usage) : Nat :=
  8 + 8 * usage.saved.size + 8 + if keepsBase usage then 8 else 0

/-- Stack bytes added before a call, which must find the stack aligned to 16. -/
def padding (usage : Usage) : Nat := (16 - depth usage % 16) % 16 + Host.Convention.shadowSpace

/-- Calls the function for an access of `size` bytes; goes to the fault exit if it fails. -/
def call [Linkage] (usage : Usage) (direction : Direction) (size : Nat) : List Node :=
  let adjust (operation : Operation) : List Node :=
    if padding usage = 0 then []
    else [op operation (.full .rsp) (constant (BitVec.ofNat 64 (padding usage)))]
  (if keepsBase usage then [push (.full usage.base)] else []) ++
  adjust .sub ++
  (if Host.Convention.firstArgument = usage.base then []
   else [op .mov (.full Host.Convention.firstArgument) (.full usage.base)]) ++
  [op .mov (.half Host.Convention.secondArgument) (.imm (BitVec.ofNat 64 size) .b32),
   op .mov (.full .rax) (constant (Linkage.entryPoint direction)),
   .instr (.one .call (.full .rax))] ++
  adjust .add ++
  (if keepsBase usage then [pop (.full usage.base)] else []) ++
  [op .test (.half .rax) (.half .rax), .instr (.one .jnz (.label faultExit))]

/-- Whether a memory operand at a position is read, and whether it is written. -/
def transfers (effects : Host.Effects) (position : Nat) : Bool × Bool :=
  if position = 0 then (effects.readsDst, effects.writesDst) else (true, effects.writesSrc)

/-- The round trip of an instruction with a memory operand. -/
def access [Linkage] (usage : Usage) (i : Instr) (position : Nat) (m : Host.Mem) : List Node :=
  let (reads, writes) := transfers i.opcode.effects position
  let value := Operand.based usage.base Context.Slot.accessValue.offset m.width
  syncOut usage ++
  [op .lea (.full (scratch usage)) (.mem m),
   op .mov (slot usage .accessAddress) (.full (scratch usage))] ++
  (if reads then call usage .read m.width.bytes else []) ++
  syncIn usage ++
  [.instr { i with operands := i.operands.set position value }] ++
  (if writes then syncOut usage ++ call usage .write m.width.bytes ++ syncIn usage else [])

/-- The code of one instruction of the body. -/
def instruction [Linkage] (usage : Usage) (i : Instr) : Except Error (List Node) :=
  match i.memory? with
  | none => .ok [.instr i]
  | some (position, m) =>
    if !i.opcode.effects.accessesMemory then .ok [.instr i]
    else if 1 < i.memories.length then .error (.unsupportedForm ⟨i.opcode, .memoryOperands⟩)
    else .ok (access usage i position m)

/-- The code of a body. -/
def body [Linkage] (usage : Usage) : List Instr → Except Error (List Node)
  | [] => .ok []
  | i :: rest => do
    let first ← instruction usage i
    return first ++ (← body usage rest)

/-! ### Exit -/

/-- Puts the changed flags into the context and leaves its other flags alone. -/
def storeFlags (usage : Usage) : List Node :=
  [pop (.full (scratch usage)),
   op .and (.full (scratch usage)) (constant Flag.status),
   op .and (slot usage .flags) (constant (~~~Flag.status)),
   op .or (slot usage .flags) (.full (scratch usage))]

def exit (usage : Usage) : List Node :=
  (if usage.flagsOut = 0 then storeRegisters usage
   else syncOut usage ++ storeFlags usage) ++
  [op .xor (.half .rax) (.half .rax), .label epilog] ++
  usage.saved.toList.reverse.map (fun r => pop (.full r)) ++
  [.instr (.bare .ret)]

/-- Entered from a failed call with the flags of the body still on the stack. -/
def fault (usage : Usage) : List Node :=
  if usage.touchesMemory then
    [.label faultExit,
     op .add (.full .rsp) (constant 8),
     op .mov (.half .rax) (.imm (Access.failed.setWidth 64) .b32),
     .instr (.one .jmp (.label epilog))]
  else []

/-- The whole function around a body. -/
def function [Linkage] (usage : Usage) (instrs : List Instr) : Except Error (List Node) := do
  let body ← body usage instrs
  return entry usage ++ body ++ exit usage ++ fault usage

end Lowering

/-- A compiled block: its usage, the number of instructions in its body, the function as a listing, and
the machine code of that. -/
structure Compiled where
  usage : Usage
  instructions : Nat
  nodes : List Node
  code : List Byte
  deriving DecidableEq, Repr

/-- Compiles host instructions. -/
def compileInstrs [Linkage] (instrs : List Instr) : Except Error Compiled := do
  let usage ← Usage.ofBody instrs
  let nodes ← Lowering.function usage instrs
  match Host.encode nodes with
  | .ok code => return { usage, instructions := instrs.length, nodes, code }
  | .error form => throw (.unsupportedForm form)

/-- Compiles the scheduled instructions. The queue is empty afterwards. -/
def compile [Linkage] (queue : Queue) : Queue × Except Error Compiled :=
  let (queue, listing, result) := queue.emit {}
  match result with
  | .error error => (queue, .error error)
  | .ok () => (queue, compileInstrs listing.instrs)

end Rehost
