import ContractMachine.Word

/-!
# The block around a message
-/

namespace ContractMachine

structure Environment where
  gasPrice : Word
  /-- Hashes of the blocks before this one, the oldest first. -/
  blockHashes : Array Word
  blockNumber : Word
  coinbase : Address
  timestamp : Word
  difficulty : Word
  gasLimit : Word
  deriving DecidableEq

namespace Environment

def zero : Environment := ⟨0, #[], 0, 0, 0, 0, 0⟩

/-- How many blocks this one comes after block `number`. -/
def age? (e : Environment) (number : Word) : Option Word := e.blockNumber.checkedSub number

/-- How many hashes come after that of block `number`. -/
def place? (e : Environment) (number : Word) : Option Word := do
  (← e.age? number).checkedSub 1

/-- Whether block `number` has no hash here: it is not an earlier block, the hashes do not go back
so far, or it is not one of the last 256. The tests are made in turn, up to the first that holds. -/
def forgets? (e : Environment) (number : Word) : Option Bool :=
  if e.blockNumber ≤ number then some true
  else do
    let place ← e.place? number
    if e.blockHashes.size ≤ place.toNat then some true
    else return 256 < (← e.age? number).toNat

/-- The hash of block `number`, zero if it has none here. There is no answer if on the way a
difference falls below zero, a number is no quantity or a place is outside the list. -/
def blockHash? (e : Environment) (number : Word) : Option Word := do
  if ← e.forgets? number then some 0
  else
    let place ← (← e.place? number).toQuantity?
    let rest ← Quantity.checkedSub e.blockHashes.size place
    e.blockHashes[← Quantity.checkedSub rest 1]?

/-- Block `number` is one of the last 256 before this one, and its hash is known. -/
def Recalls (e : Environment) (number : Word) : Prop :=
  number < e.blockNumber ∧ e.blockNumber.toNat - number.toNat ≤ min 256 e.blockHashes.size

instance (e : Environment) (number : Word) : Decidable (e.Recalls number) :=
  inferInstanceAs (Decidable (_ ∧ _))

/-! ### There is always an answer -/

variable {e : Environment} {number : Word}

theorem age?_eq (h : number < e.blockNumber) :
    ∃ age, e.age? number = some age ∧ age.toNat = e.blockNumber.toNat - number.toNat :=
  have hle : number ≤ e.blockNumber := BitVec.le_of_lt h
  ⟨_, Word.checkedSub_eq hle, BitVec.toNat_sub_of_le hle⟩

theorem place?_eq (h : number < e.blockNumber) :
    ∃ place, e.place? number = some place ∧
      place.toNat + 1 = e.blockNumber.toNat - number.toNat := by
  obtain ⟨age, hage, hdistance⟩ := age?_eq h
  have hone : 1 ≤ age := by
    rw [BitVec.le_def, hdistance]
    exact Nat.sub_pos_of_lt h
  refine ⟨age - 1, ?_, ?_⟩
  · rw [place?, hage]
    exact Word.checkedSub_eq hone
  · rw [BitVec.toNat_sub_of_le hone, ← hdistance]
    exact Nat.sub_add_cancel hone

/-- Each test protects the differences of the next one. -/
theorem forgets?_eq (e : Environment) (number : Word) :
    e.forgets? number = some !decide (e.Recalls number) := by
  unfold forgets?
  by_cases h : number < e.blockNumber
  · obtain ⟨age, hage, hdistance⟩ := age?_eq h
    obtain ⟨place, hplace, hafter⟩ := place?_eq h
    rw [if_neg (BitVec.not_le.mpr h), hplace, hage]
    dsimp only [Option.bind_eq_bind, Option.bind_some]
    by_cases hmissing : e.blockHashes.size ≤ place.toNat
    · have hforgotten : ¬e.Recalls number := fun ⟨_, hnear⟩ => by omega
      rw [if_pos hmissing, decide_eq_false hforgotten]
      rfl
    · have hrecalls : e.Recalls number ↔ ¬256 < age.toNat :=
        ⟨fun ⟨_, hnear⟩ => by omega, fun hrecent => ⟨h, by omega⟩⟩
      rw [if_neg hmissing, decide_eq_decide.mpr hrecalls, decide_not, Bool.not_not]
      rfl
  · have hforgotten : ¬e.Recalls number := fun ⟨hearlier, _⟩ => h hearlier
    rw [if_pos (BitVec.not_lt.mp h), decide_eq_false hforgotten]
    rfl

theorem blockHash?_of_recalls (h : e.Recalls number) :
    e.blockHash? number =
      e.blockHashes[e.blockHashes.size - (e.blockNumber.toNat - number.toNat)]? := by
  obtain ⟨hearlier, hnear⟩ := id h
  obtain ⟨place, hplace, hafter⟩ := place?_eq hearlier
  have hquantity : place.toNat < Quantity.limit :=
    Nat.lt_of_lt_of_le (show place.toNat < 256 by omega) (by decide)
  have hinside : place.toNat ≤ e.blockHashes.size := by omega
  have hlast : 1 ≤ e.blockHashes.size - place.toNat := by omega
  have hindex : e.blockHashes.size - place.toNat - 1 =
      e.blockHashes.size - (e.blockNumber.toNat - number.toNat) := by omega
  simp only [blockHash?, forgets?_eq, h, decide_true, Bool.not_true, Bool.false_eq_true, if_false,
    hplace, Word.toQuantity?_eq hquantity, Quantity.checkedSub_eq hinside,
    Quantity.checkedSub_eq hlast, hindex, Option.bind_eq_bind, Option.bind_some]

theorem blockHash?_of_not_recalls (h : ¬e.Recalls number) : e.blockHash? number = some 0 := by
  rw [blockHash?, forgets?_eq, decide_eq_false h]
  rfl

theorem isSome_blockHash? (e : Environment) (number : Word) :
    (e.blockHash? number).isSome = true := by
  by_cases h : e.Recalls number
  · obtain ⟨hearlier, hnear⟩ := id h
    obtain ⟨place, -, hafter⟩ := place?_eq hearlier
    rw [blockHash?_of_recalls h, isSome_getElem?]
    omega
  · rw [blockHash?_of_not_recalls h]
    rfl

/-- The hash of block `number`, zero if it has none here. -/
def blockHash (e : Environment) (number : Word) : Word :=
  (e.blockHash? number).get (e.isSome_blockHash? number)

theorem blockHash?_eq_some (e : Environment) (number : Word) :
    e.blockHash? number = some (e.blockHash number) :=
  (Option.some_get _).symm

end Environment

end ContractMachine
