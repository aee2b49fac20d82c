import Rehost.Access
import Rehost.Host.Convention
import Rehost.Machine.Code

/-!
# The platform of a run

Compiled code is called with registers, flags and stack in a state it knows little about, and the
functions it calls leave most registers and the flags in such a state again. A `Platform` fixes what
the calling convention leaves open, and what the processor may choose; a theorem about every platform
holds of every real one.
-/

namespace Rehost.Machine

open Guest (Context)
open Host (Node)

/-- What a function leaves behind where it may leave anything. -/
structure Residue where
  regs : RegFile
  flags : Word
  cells : Word → Word

structure Platform where
  latitude : Latitude
  contextAddress : Word
  stackPointer : Word
  /-- Registers, flags and memory when compiled code is entered. -/
  initial : Residue
  /-- What an access function leaves behind, called in a state. -/
  residue : State → Residue

variable {σ : Type}

namespace Platform

/-- The state on entry: the context's address is the first argument. -/
def enter (platform : Platform) (context : Context) : State where
  regs := (platform.initial.regs.set .rsp platform.stackPointer).set
    Host.Convention.firstArgument platform.contextAddress
  flags := platform.initial.flags
  cells := platform.initial.cells
  context := context

/-- The state when a function returns `status`: it has kept the registers it must keep, and memory from
the stack pointer upwards. -/
def leave (platform : Platform) (s : State) (status : BitVec 32) (context : Context) : State :=
  let residue := platform.residue s
  { regs := RegFile.ofFn fun r =>
      if r = Reg.rax then setLow (residue.regs.get r) status
      else if r = Reg.rsp ∨ r ∈ Host.Convention.calleeSaved then s.get r
      else residue.regs.get r
    flags := residue.flags
    cells := fun address =>
      if (s.get .rsp).toNat ≤ address.toNat then s.cells address else residue.cells address
    context }

/-- The access functions, called with the context's address and a size. -/
def function [Linkage] (platform : Platform) (handler : Guest.Handler σ) (address : Word)
    (attached : Attached σ) (s : State) : Option (Attached σ × State) := do
  let direction ← Access.ofEntryPoint? address
  if s.get Host.Convention.firstArgument ≠ platform.contextAddress then none
  let size := ((s.get Host.Convention.secondArgument).setWidth 32).toNat
  let (status, context, attached) := Access.call direction handler size s.context attached
  return (attached, platform.leave s status context)

def env [Linkage] (platform : Platform) (handler : Guest.Handler σ) : Env (Attached σ) where
  latitude := platform.latitude
  contextAddress := platform.contextAddress
  function := platform.function handler

/-- Calls a listing on a context. -/
def invoke [Linkage] (platform : Platform) (handler : Guest.Handler σ) (program : List Node) (context : Context)
    (memory : σ) : Outcome (Attached σ) :=
  run (platform.env handler) program (program.length + 1)
    ⟨program, { state := memory }, platform.enter context⟩

/-- Calls machine code on a context. -/
def call [Linkage] (platform : Platform) (handler : Guest.Handler σ) (code : List Byte) (context : Context)
    (memory : σ) : Outcome (Attached σ) :=
  runCode (platform.env handler) code (code.length + 1) ⟨0, { state := memory }, platform.enter context⟩

/-- A platform to run code on. Every register that code may not rely on holds a value of its own. -/
def standard : Platform where
  latitude := .usual
  contextAddress := 0x7f5500001000
  stackPointer := 0x7ffe00000ff8
  initial :=
    { regs := RegFile.ofFn fun r => 0xdead0000beef0000 + BitVec.ofNat 64 r.val
      flags := 0xad7
      cells := fun _ => 0xcccccccccccccccc }
  residue s :=
    { regs := RegFile.ofFn fun r => 0xfeed0000face0000 + BitVec.ofNat 64 r.val
      flags := ~~~s.flags
      cells := fun _ => 0xdddddddddddddddd }

end Platform

end Rehost.Machine
