import Rehost.Error

/-!
# Installed code

The store counts what is installed: functions and bytes that are live, and functions installed so far.
-/

namespace Rehost

structure CodeStore where
  live : Nat := 0
  codeBytes : Nat := 0
  installedTotal : Nat := 0
  deriving DecidableEq, Repr

namespace CodeStore

/-- Installs the code of one function, which must not be empty. -/
def install (store : CodeStore) (code : List Byte) : Except Error CodeStore :=
  if code.isEmpty then .error .emptyCode
  else .ok
    { live := store.live + 1
      codeBytes := store.codeBytes + code.length
      installedTotal := store.installedTotal + 1 }

/-- Releases the code of one function; counts do not go below zero. -/
def release (store : CodeStore) (code : List Byte) : CodeStore :=
  { store with live := store.live - 1, codeBytes := store.codeBytes - code.length }

end CodeStore

end Rehost
