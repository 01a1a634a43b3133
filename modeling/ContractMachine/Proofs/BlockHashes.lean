import ContractMachine.Environment
import Mathlib.Tactic.Lemma

/-!
# The hashes of earlier blocks

A frame can ask for the hash of any block number. The hashes that the environment holds may go back
less far than the last 256 blocks, farther, or even farther than there are blocks. Whatever it holds
and whatever number is asked for, working out the answer stays above zero and inside the list.
-/

namespace ContractMachine.Proofs

variable {e : Environment} {number : Word}

/-- The entry that belongs to a block, counted back from the end of the list. -/
lemma getElem?_of_recalls (h : e.Recalls number) :
    e.blockHashes[e.blockHashes.size - (e.blockNumber.toNat - number.toNat)]? =
      some (e.blockHash number) := by
  rw [← Environment.blockHash?_of_recalls h, Environment.blockHash?_eq_some]

lemma blockHash_of_not_recalls (h : ¬e.Recalls number) : e.blockHash number = 0 := by
  apply Option.some.inj
  rw [← Environment.blockHash?_eq_some, Environment.blockHash?_of_not_recalls h]

/-- The answer is an entry of the list for recalled blocks only, unless a hash is zero. -/
lemma recalls_of_mem (hzero : 0 ∉ e.blockHashes) (h : e.blockHash number ∈ e.blockHashes) :
    e.Recalls number := by
  apply Decidable.byContradiction
  intro hforgotten
  rw [blockHash_of_not_recalls hforgotten] at h
  exact hzero h

/-- The hash of every block number can be worked out, without a difference below zero or a place
outside the list. It is the entry as far back from the end of the list as the block is from this one
if the block is an earlier one, one of the last 256, and no farther back than the list goes. It is
zero in every other case, so that where no hash is zero the entry is the answer for these blocks
alone. -/
theorem blockHash_recalls_window (e : Environment) (number : Word) :
    e.blockHash? number = some (e.blockHash number) ∧
    (e.Recalls number →
      e.blockHashes[e.blockHashes.size - (e.blockNumber.toNat - number.toNat)]? =
        some (e.blockHash number)) ∧
    (¬e.Recalls number → e.blockHash number = 0) ∧
    (0 ∉ e.blockHashes →
      (e.blockHashes[e.blockHashes.size - (e.blockNumber.toNat - number.toNat)]? =
        some (e.blockHash number) ↔ e.Recalls number)) := by
  refine ⟨e.blockHash?_eq_some number, getElem?_of_recalls, blockHash_of_not_recalls, ?_⟩
  intro hzero
  constructor
  · intro hentry
    exact recalls_of_mem hzero (Array.mem_of_getElem? hentry)
  · exact getElem?_of_recalls

/-- A block that is given one hash more than there are blocks before it, none of them zero. -/
def crowdedEnvironment : Environment :=
  { Environment.zero with
    blockNumber := 257
    blockHashes := Array.ofFn fun i : Fin 258 => BitVec.ofNat 256 (i + 7) }

/-- The oldest and the newest of the last 256 blocks have their hashes, the one before them and this
one have none though the list is long enough. -/
theorem blockHash_recalls_window_crowded :
    crowdedEnvironment.blockHash 1 = 9 ∧ crowdedEnvironment.blockHash 256 = 264 ∧
      crowdedEnvironment.blockHash 0 = 0 ∧ crowdedEnvironment.blockHash 257 = 0 ∧
      crowdedEnvironment.blockHashes[1]? ≠ some (crowdedEnvironment.blockHash 0) := by
  have hsize : crowdedEnvironment.blockHashes.size = 258 := by
    simp only [crowdedEnvironment, Array.size_ofFn]
  have hentry (i : Nat) (hi : i < 258) :
      crowdedEnvironment.blockHashes[i]? = some (BitVec.ofNat 256 (i + 7)) := by
    simp only [crowdedEnvironment, Array.getElem?_ofFn, hi, dite_true]
  have hzero : 0 ∉ crowdedEnvironment.blockHashes := by
    simp only [crowdedEnvironment, Array.mem_ofFn, not_exists]
    intro i hi
    have hvalue := congrArg BitVec.toNat hi
    rw [BitVec.toNat_ofNat, Nat.mod_eq_of_lt (by omega)] at hvalue
    cases hvalue
  have holdest : crowdedEnvironment.Recalls 1 := ⟨by decide, by rw [hsize]; decide⟩
  have hnewest : crowdedEnvironment.Recalls 256 := ⟨by decide, by rw [hsize]; decide⟩
  have hbefore : ¬crowdedEnvironment.Recalls 0 := by
    rintro ⟨-, hnear⟩
    rw [hsize] at hnear
    revert hnear
    decide
  have hthis : ¬crowdedEnvironment.Recalls 257 := fun ⟨hearlier, _⟩ => absurd hearlier (by decide)
  obtain ⟨-, hfirst, -, -⟩ := blockHash_recalls_window crowdedEnvironment 1
  obtain ⟨-, hlast, -, -⟩ := blockHash_recalls_window crowdedEnvironment 256
  obtain ⟨-, -, hpast, hentries⟩ := blockHash_recalls_window crowdedEnvironment 0
  obtain ⟨-, -, hself, -⟩ := blockHash_recalls_window crowdedEnvironment 257
  have hfirst := hfirst holdest
  have hlast := hlast hnewest
  have hentries := mt (hentries hzero).mp hbefore
  rw [hsize] at hfirst hlast hentries
  refine ⟨?_, ?_, hpast hbefore, hself hthis, hentries⟩
  · exact Option.some.inj (hfirst.symm.trans (hentry 2 (by decide)))
  · exact Option.some.inj (hlast.symm.trans (hentry 257 (by decide)))

end ContractMachine.Proofs
