import Rehost.Guest.FlatMemory

/-!
# Recorded memory

Flat memory that keeps a log of the accesses it was asked for, and can be told to refuse one of them.
-/

namespace Rehost.Guest

/-- One access as the handler saw it. -/
inductive Access where
  | read (address : Word) (size : Nat)
  | write (address : Word) (bytes : List Byte)
  deriving DecidableEq, Repr

/-- Which access to refuse, counted from one, and how. -/
structure Interruption where
  turn : Nat
  refusal : Refusal
  deriving DecidableEq, Repr

/-- Memory with a log, latest access last. -/
structure Recorder where
  memory : FlatMemory
  log : List Access := []
  interruption : Option Interruption := none
  deriving DecidableEq, Repr

namespace Recorder

/-- Notes an access, and says how it is to be refused, if it is. -/
def note (recorder : Recorder) (access : Access) : Recorder × Option Refusal :=
  let log := recorder.log ++ [access]
  let refusal := recorder.interruption.bind fun interruption =>
    if interruption.turn = log.length then some interruption.refusal else none
  ({ recorder with log }, refusal)

/-- An access is noted first; a refused one does not reach the memory. -/
def handler : Handler Recorder where
  read recorder address n :=
    match recorder.note (.read address n) with
    | (recorder, some refusal) => ⟨recorder, .error refusal, Vector.replicate n 0⟩
    | (recorder, none) =>
      let reply := FlatMemory.handler.read recorder.memory address n
      ⟨{ recorder with memory := reply.state }, reply.result, reply.buffer⟩
  write recorder address bytes :=
    match recorder.note (.write address bytes) with
    | (recorder, some refusal) => (recorder, .error refusal)
    | (recorder, none) =>
      let (memory, result) := FlatMemory.handler.write recorder.memory address bytes
      ({ recorder with memory }, result)

end Recorder

end Rehost.Guest
