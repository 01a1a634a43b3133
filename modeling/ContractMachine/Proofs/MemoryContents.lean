import ContractMachine.Proofs.MemoryAccesses

/-!
# What memory holds

Memory is grown, written to and copied into. Whatever is asked of it, a use that it allows changes
the bytes that were named and no others, growing adds zeros, and a use that it refuses leaves it as
it was. Hence memory stays a number of whole words, and never shrinks.
-/

namespace ContractMachine.Proofs

/-- What can be done to memory. -/
inductive MemoryUse
  | resize (stop : Nat)
  | resizeRegion (offset length : Word)
  /-- All of the value is written where no number of bytes is given. -/
  | write (offset : Nat) (value : Bytes) (count : Option Nat)
  | copy (offset sourceOffset length : Word) (source : Bytes)

namespace MemoryUse

def apply : MemoryUse → Action Memory Unit
  | resize stop => Memory.resize stop
  | resizeRegion offset length => Memory.resizeRegion offset length
  | write offset value count => Memory.write offset value (count.getD value.size)
  | copy offset sourceOffset length source => Memory.copy offset sourceOffset length source

end MemoryUse

/-- The memory after these uses, whether or not they were refused. -/
def useMemory : List MemoryUse → Memory → Memory
  | [], m => m
  | use :: rest, m => useMemory rest (use.apply m).2

/-- The `count` bytes from `start` on are those of the source from `first` on, and zero where the
source has none. All other bytes are as they were. -/
structure Filled (start count first : Nat) (source : Bytes) (m m' : Memory) : Prop where
  size : m'.size = m.size
  limit : m'.limit = m.limit
  given : ∀ j byte, start ≤ j → j < start + count →
    source[first + (j - start)]? = some byte → m'.data[j]? = some byte
  missing : ∀ j, start ≤ j → j < start + count →
    source[first + (j - start)]? = none → m'.data[j]? = some 0
  kept : ∀ j, j < start ∨ start + count ≤ j → m'.data[j]? = m.data[j]?

/-- The memory reaches `stop`, in whole words if it had to grow, with zeros where it has grown. -/
structure Grown (stop : Nat) (m m' : Memory) : Prop where
  size : m'.size = if stop ≤ m.size then m.size else Quantity.wordAlign stop
  limit : m'.limit = m.limit
  kept : ∀ j < m.size, m'.data[j]? = m.data[j]?
  fresh : ∀ j, m.size ≤ j → j < m'.size → m'.data[j]? = some 0

/-- The memory reaches `stop`, or may grow to it. -/
def CanReach (m : Memory) (stop : Nat) : Prop :=
  stop ≤ m.size ∨ (Quantity.wordAlign stop < Quantity.limit ∧ Quantity.wordAlign stop ≤ m.limit)

namespace MemoryUse

/-- What the memory has to allow for the use. -/
def Fits (m : Memory) : MemoryUse → Prop
  | resize stop => CanReach m stop
  | resizeRegion offset length => length = 0 ∨
      (offset.toNat + length.toNat < Quantity.limit ∧ CanReach m (offset.toNat + length.toNat))
  | write offset value count =>
    count.getD value.size = 0 ∨ offset + count.getD value.size ≤ m.size
  | copy offset _ length _ => length = 0 ∨
      (offset.toNat < Quantity.limit ∧ length.toNat < Quantity.limit ∧
        offset.toNat + length.toNat ≤ m.size)

/-- What the use makes of the memory. -/
def Leaves (m m' : Memory) : MemoryUse → Prop
  | resize stop => Grown stop m m'
  | resizeRegion offset length =>
    Grown (if length = 0 then 0 else offset.toNat + length.toNat) m m'
  | write offset value count => Filled offset (count.getD value.size) 0 value m m'
  | copy offset sourceOffset length source =>
    Filled offset.toNat length.toNat sourceOffset.toNat source m m'

end MemoryUse

/-- The action does what it is meant to if the memory allows it, and nothing if not. -/
inductive Outcome (fits : Prop) (leaves : Memory → Prop) (m : Memory) :
    Except Fault Unit × Memory → Prop
  | done {m' : Memory} (hfits : fits) (hleaves : leaves m') : Outcome fits leaves m (.ok (), m')
  | refused {f : Fault} (hfits : ¬fits) : Outcome fits leaves m (.error f, m)

lemma grown_refl (stop : Nat) (m : Memory) (h : stop ≤ m.size) : Grown stop m m where
  size := (if_pos h).symm
  limit := rfl
  kept _ _ := rfl
  fresh _ hpast hinside := absurd hinside (Nat.not_lt_of_le hpast)

lemma grown_append {stop : Nat} {data : Bytes} (limit : Nat) (h : ¬stop ≤ data.size) :
    Grown stop ⟨data, limit⟩
      ⟨data ++ Array.replicate (Quantity.wordAlign stop - data.size) 0, limit⟩ := by
  have hle := Quantity.le_wordAlign stop
  constructor
  · show (data ++ Array.replicate _ 0).size = if stop ≤ data.size then _ else _
    rw [if_neg h, Array.size_append, Array.size_replicate]
    omega
  · rfl
  · intro j hj
    exact Array.getElem?_append_left hj
  · intro j hpast hinside
    have hplace : j - data.size < Quantity.wordAlign stop - data.size := by
      rw [Memory.size, Array.size_append, Array.size_replicate] at hinside
      exact Nat.sub_lt_left_of_lt_add hpast hinside
    show (data ++ Array.replicate _ 0)[j]? = some 0
    rw [Array.getElem?_append_right hpast, Array.getElem?_replicate, if_pos hplace]

lemma resize_outcome (stop : Nat) (m : Memory) :
    Outcome (CanReach m stop) (Grown stop m) m (Memory.resize stop m) := by
  obtain ⟨data, limit⟩ := m
  rw [Memory.resize_eq]
  by_cases hreached : stop ≤ data.size
  · rw [if_pos hreached]
    exact .done (.inl hreached) (grown_refl stop _ hreached)
  · rw [if_neg hreached]
    by_cases hquantity : Quantity.limit ≤ Quantity.wordAlign stop
    · rw [if_pos hquantity]
      refine .refused ?_
      rintro (hle | ⟨hlt, -⟩)
      · exact hreached hle
      · exact Nat.not_lt_of_le hquantity hlt
    · rw [if_neg hquantity]
      by_cases hlimit : limit < Quantity.wordAlign stop
      · rw [if_pos hlimit]
        refine .refused ?_
        rintro (hle | ⟨-, hle⟩)
        · exact hreached hle
        · exact Nat.not_le_of_lt hlimit hle
      · rw [if_neg hlimit]
        exact .done (.inr ⟨Nat.lt_of_not_le hquantity, Nat.le_of_not_lt hlimit⟩)
          (grown_append limit hreached)

lemma filled_overwrite (start count first : Nat) (source : Bytes) {m : Memory}
    (h : count = 0 ∨ start + count ≤ m.size) :
    Filled start count first source m
      ⟨Memory.overwrite (fun i => source.at0 (first + i)) start count m.data, m.limit⟩ := by
  have hinside {j : Nat} (hstop : j < start + count) (hstart : start ≤ j) : j < m.data.size := by
    obtain hnone | hend := h
    · omega
    · exact Nat.lt_of_lt_of_le hstop hend
  have hbyte {j : Nat} (hstart : start ≤ j) (hstop : j < start + count) :
      (Memory.overwrite (fun i => source.at0 (first + i)) start count m.data)[j]? =
        some (source[first + (j - start)]?.getD 0) := by
    rw [getElem?_overwrite, if_pos ⟨hstart, hstop, hinside hstop hstart⟩, Bytes.at0,
      Array.getD_eq_getD_getElem?]
  constructor
  · exact size_overwrite _ _ _ _
  · rfl
  · intro j byte hstart hstop hgiven
    show (Memory.overwrite _ _ _ _)[j]? = _
    rw [hbyte hstart hstop, hgiven, Option.getD_some]
  · intro j hstart hstop hmissing
    show (Memory.overwrite _ _ _ _)[j]? = _
    rw [hbyte hstart hstop, hmissing, Option.getD_none]
  · intro j houtside
    show (Memory.overwrite _ _ _ _)[j]? = _
    rw [getElem?_overwrite, if_neg (by omega)]

lemma fill_outcome (start count first : Nat) (source : Bytes) (m : Memory) :
    Outcome (count = 0 ∨ start + count ≤ m.size) (Filled start count first source m) m
      (Memory.fill start count (fun i => source.at0 (first + i)) m) := by
  unfold Memory.fill
  by_cases hnone : count = 0
  · rw [if_pos hnone]
    have hfilled := filled_overwrite start count first source (m := m) (.inl hnone)
    subst hnone
    exact .done (.inl rfl) hfilled
  · rw [if_neg hnone]
    by_cases hpast : m.data.size < start + count
    · rw [if_pos hpast]
      exact .refused fun hfits => Nat.not_le_of_lt hpast (hfits.resolve_left hnone)
    · rw [if_neg hpast]
      have hfits : count = 0 ∨ start + count ≤ m.size := .inr (Nat.le_of_not_lt hpast)
      exact .done hfits (filled_overwrite start count first source hfits)

lemma Outcome.mono {fits fits' : Prop} {leaves leaves' : Memory → Prop} {m : Memory}
    {result : Except Fault Unit × Memory} (h : Outcome fits leaves m result)
    (hfits : fits' ↔ fits) (hleaves : ∀ m', leaves m' → leaves' m') :
    Outcome fits' leaves' m result := by
  cases h with
  | done hallowed hleft => exact .done (hfits.mpr hallowed) (hleaves _ hleft)
  | refused hno => exact .refused fun hallowed => hno (hfits.mp hallowed)

lemma write_outcome (offset count : Nat) (value : Bytes) (m : Memory) :
    Outcome (count = 0 ∨ offset + count ≤ m.size) (Filled offset count 0 value m) m
      (Memory.write offset value count m) := by
  have h := fill_outcome offset count 0 value m
  simp only [Nat.zero_add] at h
  exact h

lemma copy_outcome (offset sourceOffset length : Word) (source : Bytes) (m : Memory) :
    Outcome ((MemoryUse.copy offset sourceOffset length source).Fits m)
      (Filled offset.toNat length.toNat sourceOffset.toNat source m) m
      (Memory.copy offset sourceOffset length source m) := by
  unfold Memory.copy MemoryUse.Fits
  by_cases hnone : length = 0
  · subst hnone
    exact .done (.inl rfl) (filled_overwrite _ 0 _ source (.inl rfl))
  · have hlength : length.toNat ≠ 0 := fun hzero => hnone (BitVec.eq_of_toNat_eq hzero)
    rw [if_neg hnone]
    unfold Word.toQuantity?
    by_cases hoffset : offset.toNat < Quantity.limit
    · by_cases hquantity : length.toNat < Quantity.limit
      · rw [if_pos hoffset, if_pos hquantity]
        refine (fill_outcome offset.toNat length.toNat sourceOffset.toNat source m).mono ?_
          fun _ => id
        simp only [hnone, hlength, hoffset, hquantity, false_or, true_and]
      · rw [if_pos hoffset, if_neg hquantity]
        exact .refused fun hfits => hquantity (hfits.resolve_left hnone).2.1
    · rw [if_neg hoffset]
      exact .refused fun hfits => hoffset (hfits.resolve_left hnone).1

/-- Every use is done in full or refused without any effect. -/
theorem apply_outcome (use : MemoryUse) (m : Memory) :
    Outcome (use.Fits m) (fun m' => use.Leaves m m') m (use.apply m) := by
  cases use with
  | resize stop => exact resize_outcome stop m
  | write offset value count => exact write_outcome offset _ value m
  | copy offset sourceOffset length source => exact copy_outcome offset sourceOffset length source m
  | resizeRegion offset length =>
    unfold MemoryUse.apply MemoryUse.Fits MemoryUse.Leaves Memory.resizeRegion
    by_cases hnone : length = 0
    · simp only [hnone, if_true]
      exact .done (.inl trivial) (grown_refl 0 m (Nat.zero_le _))
    · simp only [hnone, if_false, false_or]
      by_cases hquantity : Quantity.limit ≤ offset.toNat + length.toNat
      · rw [if_pos hquantity]
        exact .refused fun hfits => Nat.not_lt_of_le hquantity hfits.1
      · rw [if_neg hquantity]
        refine (resize_outcome (offset.toNat + length.toNat) m).mono ?_ fun _ => id
        exact and_iff_right (Nat.lt_of_not_le hquantity)

lemma Grown.size_le {stop : Nat} {m m' : Memory} (h : Grown stop m m') :
    m.size ≤ m'.size ∧ (32 ∣ m.size → 32 ∣ m'.size) := by
  have hle := Quantity.le_wordAlign stop
  have hwords := Quantity.wordAlign_dvd stop
  rw [h.size]
  by_cases hreached : stop ≤ m.size
  · rw [if_pos hreached]
    exact ⟨Nat.le_refl _, id⟩
  · rw [if_neg hreached]
    exact ⟨by omega, fun _ => hwords⟩

lemma Outcome.size_le {use : MemoryUse} {fits : Prop} {m : Memory}
    {result : Except Fault Unit × Memory} (h : Outcome fits (fun m' => use.Leaves m m') m result) :
    m.size ≤ result.2.size ∧ (32 ∣ m.size → 32 ∣ result.2.size) := by
  cases h with
  | refused hfits => exact ⟨Nat.le_refl _, id⟩
  | @done m' hfits hleaves =>
    cases use with
    | resize stop => exact Grown.size_le hleaves
    | resizeRegion offset length => exact Grown.size_le hleaves
    | write offset value count =>
      rw [Filled.size hleaves]
      exact ⟨Nat.le_refl _, id⟩
    | copy offset sourceOffset length source =>
      rw [Filled.size hleaves]
      exact ⟨Nat.le_refl _, id⟩

theorem useMemory_size (uses : List MemoryUse) (m : Memory) :
    m.size ≤ (useMemory uses m).size ∧ (32 ∣ m.size → 32 ∣ (useMemory uses m).size) := by
  induction uses generalizing m with
  | nil => exact ⟨Nat.le_refl _, id⟩
  | cons use rest ih =>
    obtain ⟨hle, hwords⟩ := (apply_outcome use m).size_le
    obtain ⟨hrest, hwordsRest⟩ := ih (use.apply m).2
    exact ⟨Nat.le_trans hle hrest, fun h => hwordsRest (hwords h)⟩

/-- What is read has as many bytes as were asked for: those of the memory, and zeros past its
end. -/
lemma read_bytes (m : Memory) (offset count : Nat) :
    (m.read offset count).size = count ∧
      ∀ i < count, (m.read offset count)[i]? = some (m.data[offset + i]?.getD 0) := by
  refine ⟨Bytes.size_window _ _ _, ?_⟩
  intro i hi
  rw [Memory.read, Bytes.window, Array.getElem?_ofFn, dif_pos hi, Bytes.at0,
    Array.getD_eq_getD_getElem?]

/-- Memory does exactly what is asked of it where it allows that, and is left as it was where it
does not. Reading gives its bytes, and zeros past its end. Whatever is done to it, it never shrinks
and stays a number of whole words. -/
theorem memory_holds_what_is_written (m : Memory) :
    (∀ use : MemoryUse,
      (∀ m', use.apply m = (.ok (), m') → use.Leaves m m') ∧
      (∀ f m', use.apply m = (.error f, m') → m' = m) ∧
      ((∃ m', use.apply m = (.ok (), m')) ↔ use.Fits m)) ∧
    (∀ offset count, (m.read offset count).size = count ∧
      ∀ i < count, (m.read offset count)[i]? = some (m.data[offset + i]?.getD 0)) ∧
    ∀ uses, m.size ≤ (useMemory uses m).size ∧
      (32 ∣ m.size → 32 ∣ (useMemory uses m).size) := by
  refine ⟨?_, read_bytes m, fun uses => useMemory_size uses m⟩
  intro use
  have houtcome := apply_outcome use m
  generalize use.apply m = result at houtcome
  cases houtcome with
  | @done after hfits hleaves =>
    refine ⟨?_, ?_, fun _ => hfits, fun _ => ⟨after, rfl⟩⟩
    · rintro m' ⟨⟩
      exact hleaves
    · rintro f m' ⟨⟩
  | refused hfits =>
    refine ⟨?_, ?_, ?_, fun hallowed => absurd hallowed hfits⟩
    · rintro m' ⟨⟩
    · rintro f m' ⟨⟩
      rfl
    · rintro ⟨m', ⟨⟩⟩

/-- A word of memory that may grow to two. -/
def singleWordMemory : Memory := ⟨Array.replicate 32 0xaa, 64⟩

/-- A copy from the last offset that there is finds no byte, a value that is one byte too long is
refused, and a region across the end reads zeros there. -/
theorem memory_holds_what_is_written_endlessOffset :
    (∃ m', (MemoryUse.copy 8 (BitVec.allOnes 256) 2 #[1, 2, 3]).apply singleWordMemory =
        (.ok (), m') ∧
      m'.data[8]? = some 0 ∧ m'.data[10]? = some 0xaa) ∧
    (MemoryUse.write 31 #[1, 2] none).apply singleWordMemory =
      (.error .invalidRange, singleWordMemory) ∧
    (singleWordMemory.read 31 2)[1]? = some 0 := by
  obtain ⟨huses, hreads, -⟩ := memory_holds_what_is_written singleWordMemory
  obtain ⟨hcopies, -, hallows⟩ := huses (.copy 8 (BitVec.allOnes 256) 2 #[1, 2, 3])
  obtain ⟨-, hrefuses, -⟩ := huses (.write 31 #[1, 2] none)
  refine ⟨?_, ?_, (hreads 31 2).2 1 (by decide)⟩
  · obtain ⟨m', hcopy⟩ := hallows.mpr (.inr (by decide))
    have hfilled : Filled 8 2 (BitVec.allOnes 256).toNat #[1, 2, 3] singleWordMemory m' :=
      hcopies m' hcopy
    exact ⟨m', hcopy, hfilled.missing 8 (by decide) (by decide) (by decide),
      hfilled.kept 10 (by decide)⟩
  · have hfault : ((MemoryUse.write 31 #[1, 2] none).apply singleWordMemory).1 =
        .error .invalidRange := by rfl
    exact Prod.ext hfault (hrefuses .invalidRange _ (Prod.ext hfault rfl))

end ContractMachine.Proofs
