/-!
# Instruction prefixes

A lock or repeat byte before an instruction, on the guest side and on the host side alike.
-/

namespace Rehost

/-- A byte that may stand before an instruction. -/
inductive Prefix where
  | plain | lock | rep | repne
  deriving DecidableEq, Repr

namespace Prefix

def all : List Prefix := [plain, lock, rep, repne]

def name : Prefix → String
  | plain => "none"
  | lock => "lock"
  | rep => "rep"
  | repne => "repne"

def ofName? (name : String) : Option Prefix := all.find? (·.name = name)

end Prefix

end Rehost
