import ContractMachine.World.Account

/-!
# The journal

Every change to the world leaves an entry that says how to take it back. The entries are kept with
the latest first, and their number marks a state of the world.
-/

namespace ContractMachine

/-- How to take one change back. -/
inductive Change
  /-- The account was made or replaced. -/
  | account (address : Address) (previous : Option Account)
  | nonce (address : Address) (previous : UInt64)
  | balance (address : Address) (previous : Word)
  | code (address : Address) (previous : Bytes)
  | storage (address : Address) (slot : Word) (previous : Option Word)
  | log
  | selfDestruct (address : Address) (wasMarked : Bool) (previous : Word)
  deriving DecidableEq

structure Journal where
  /-- The changes, the latest first. -/
  changes : List Change
  size : Nat
  size_eq : size = changes.length
  deriving DecidableEq

namespace Journal

def empty : Journal := ⟨[], 0, rfl⟩

def push (j : Journal) (c : Change) : Journal :=
  ⟨c :: j.changes, j.size + 1, congrArg (· + 1) j.size_eq⟩

/-- The journal of these changes. -/
def ofChanges (changes : List Change) (size : Nat) (h : size = changes.length) : Journal :=
  ⟨changes, size, h⟩

theorem ext {i j : Journal} (h : i.changes = j.changes) : i = j := by
  obtain ⟨c, n, hn⟩ := i
  obtain ⟨d, m, hm⟩ := j
  simp only at h
  subst h hn hm
  rfl

end Journal

end ContractMachine
