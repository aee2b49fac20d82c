import Rehost.Guest.Operand
import Rehost.Operation
import Rehost.Prefix
import Rehost.Slots

/-!
# Guest instructions

A guest instruction is a mnemonic with up to four operands and perhaps a lock or repeat prefix. Of the
thirty mnemonics twenty-two denote an `Operation`; the others use the stack or registers that their
operands do not name.
-/

namespace Rehost.Guest

inductive Mnemonic where
  | op (operation : Operation)
  | push | pop | mul | imul | div | idiv | cpuid | hlt
  deriving DecidableEq, Repr

namespace Mnemonic

def all : List Mnemonic :=
  Operation.all.map op ++ [push, pop, mul, imul, div, idiv, cpuid, hlt]

def name : Mnemonic → String
  | op operation => operation.name
  | push => "push"
  | pop => "pop"
  | mul => "mul"
  | imul => "imul"
  | div => "div"
  | idiv => "idiv"
  | cpuid => "cpuid"
  | hlt => "hlt"

def ofName? (name : String) : Option Mnemonic := all.find? (·.name = name)

end Mnemonic

structure Instruction where
  lead : Prefix := .plain
  mnemonic : Mnemonic
  operands : Slots Operand := {}
  deriving DecidableEq, Repr

end Rehost.Guest
