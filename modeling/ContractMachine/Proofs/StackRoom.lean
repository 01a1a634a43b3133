import ContractMachine.Proofs.MemoryNeeds

/-!
# Room on the stack

An operation declares how many items it takes and how many it leaves in their place, and the stack
is checked once against the two numbers before the operation runs. The check answers what taking and
putting the items one by one would come to, so that a behaviour that keeps to its declaration never
meets the end of the stack.
-/

namespace ContractMachine.Proofs

/-- Takes so many items, one after the other. -/
def popMany : Nat → Action Stack Unit
  | 0 => pure ()
  | count + 1 => do
    let _ ← Stack.pop
    popMany count

/-- Puts words on top, one after the other. -/
def pushMany : List Word → Action Stack Unit
  | [] => pure ()
  | w :: rest => do
    Stack.push w
    pushMany rest

/-- Takes so many items, and then puts words on top. -/
def exchange (count : Nat) (words : List Word) : Action Stack Unit := do
  popMany count
  pushMany words

/-- One of so many items cannot be taken, after all items before it were. -/
def PopFailsFirst (s : Stack) (count : Nat) : Prop :=
  ∃ taken < count, ∃ t f, popMany taken s = (.ok (), t) ∧ (Stack.pop t).1 = .error f

/-- All items can be taken, but one of the words cannot be put on top, after all words before it
were. -/
def PushFailsFirst (s : Stack) (count : Nat) (words : List Word) : Prop :=
  ∃ before w after t f, words = before ++ w :: after ∧ exchange count before s = (.ok (), t) ∧
    (Stack.push w t).1 = .error f

/-- What can be done to a stack. -/
inductive StackUse
  | push (w : Word)
  | pop
  | set (n : Nat) (w : Word)
  | peek (n : Nat)
  | peekQuantity (n : Nat)

namespace StackUse

def apply : StackUse → Action Stack Unit
  | push w => Stack.push w
  | pop => do
    let _ ← Stack.pop
  | set n w => Stack.set n w
  | peek n => Action.query fun s => (s.peek n).map fun _ => ()
  | peekQuantity n => Action.query fun s => (s.peekQuantity n).map fun _ => ()

end StackUse

/-- The stack after these uses, whether or not they were refused. -/
def useStack : List StackUse → Stack → Stack
  | [], s => s
  | use :: rest, s => useStack rest (use.apply s).2

variable {s t : Stack} {count : Nat} {words : List Word}

lemma popMany_eq (h : count ≤ s.height) :
    popMany count s = (.ok (), ⟨s.items.drop count, s.limit⟩) := by
  induction count generalizing s with
  | zero => rfl
  | succ count ih =>
    obtain ⟨items, limit⟩ := s
    cases items with
    | nil => exact absurd h (Nat.not_succ_le_zero count)
    | cons top rest => exact ih (s := ⟨rest, limit⟩) (Nat.le_of_succ_le_succ h)

lemma popMany_fault (h : s.height < count) : (popMany count s).1 = .error .stackUnderflow := by
  induction count generalizing s with
  | zero => exact absurd h (Nat.not_lt_zero _)
  | succ count ih =>
    obtain ⟨items, limit⟩ := s
    cases items with
    | nil => rfl
    | cons top rest => exact ih (s := ⟨rest, limit⟩) (Nat.lt_of_succ_lt_succ h)

lemma le_height_of_popMany (h : popMany count s = (.ok (), t)) : count ≤ s.height := by
  apply Nat.le_of_not_lt
  intro hshort
  have hfault := popMany_fault hshort
  rw [h] at hfault
  cases hfault

lemma push_ok (w : Word) (h : s.height < s.limit) :
    Stack.push w s = (.ok (), ⟨w :: s.items, s.limit⟩) :=
  if_neg (Nat.not_lt_of_le h)

lemma push_fault (w : Word) (h : s.limit ≤ s.height) :
    Stack.push w s = (.error .stackOverflow, s) :=
  if_pos (Nat.lt_succ_of_le h)

lemma pushMany_eq (h : s.height + words.length ≤ s.limit) :
    pushMany words s = (.ok (), ⟨words.reverse ++ s.items, s.limit⟩) := by
  induction words generalizing s with
  | nil => rfl
  | cons w rest ih =>
    rw [List.length_cons] at h
    have hrest := ih (s := ⟨w :: s.items, s.limit⟩) (by simp only [Stack.height] at h ⊢; grind)
    simp only [pushMany, Action.bind_apply, push_ok w (s := s) (by omega), hrest,
      List.reverse_cons, List.append_assoc, List.singleton_append]

lemma pushMany_fault (hs : s.height ≤ s.limit) (h : s.limit < s.height + words.length) :
    (pushMany words s).1 = .error .stackOverflow := by
  induction words generalizing s with
  | nil => exact absurd h (Nat.not_lt_of_le hs)
  | cons w rest ih =>
    rw [List.length_cons] at h
    by_cases hroom : s.height < s.limit
    · have hrest := ih (s := ⟨w :: s.items, s.limit⟩) hroom
        (by simp only [Stack.height, List.length_cons] at h ⊢; omega)
      simp only [pushMany, Action.bind_apply, push_ok w hroom, hrest]
    · simp only [pushMany, Action.bind_apply, push_fault w (Nat.le_of_not_lt hroom)]

lemma height_drop : (⟨s.items.drop count, s.limit⟩ : Stack).height = s.height - count :=
  List.length_drop

lemma height_exchanged :
    (⟨words.reverse ++ s.items.drop count, s.limit⟩ : Stack).height =
      s.height - count + words.length := by
  simp only [Stack.height, List.length_append, List.length_reverse, List.length_drop,
    Nat.add_comm]

lemma exchange_eq (h : count ≤ s.height) :
    exchange count words s = pushMany words ⟨s.items.drop count, s.limit⟩ := by
  simp only [exchange, Action.bind_apply, popMany_eq h]

lemma exchange_room (hpop : count ≤ s.height)
    (hpush : s.height - count + words.length ≤ s.limit) :
    exchange count words s = (.ok (), ⟨words.reverse ++ s.items.drop count, s.limit⟩) := by
  rw [exchange_eq hpop, pushMany_eq (by rwa [height_drop])]

lemma exchange_underflow (h : s.height < count) :
    (exchange count words s).1 = .error .stackUnderflow := by
  have hfault := popMany_fault h
  cases htake : popMany count s with
  | mk result t =>
    rw [htake] at hfault
    cases hfault
    simp only [exchange, Action.bind_apply, htake]

lemma exchange_overflow (hs : s.height ≤ s.limit) (hpop : count ≤ s.height)
    (hpush : s.limit < s.height - count + words.length) :
    (exchange count words s).1 = .error .stackOverflow := by
  rw [exchange_eq hpop]
  apply pushMany_fault
  · rw [height_drop]
    exact Nat.le_trans (Nat.sub_le _ _) hs
  · rwa [height_drop]

lemma room_of_exchange (hs : s.height ≤ s.limit) (h : exchange count words s = (.ok (), t)) :
    count ≤ s.height ∧ s.height - count + words.length ≤ s.limit := by
  have hpop : count ≤ s.height := by
    apply Nat.le_of_not_lt
    intro hshort
    have hfault : (exchange count words s).1 = .error .stackUnderflow := exchange_underflow hshort
    rw [h] at hfault
    cases hfault
  refine ⟨hpop, ?_⟩
  apply Nat.le_of_not_lt
  intro hpast
  have hfault := exchange_overflow hs hpop hpast
  rw [h] at hfault
  cases hfault

lemma check_eq {pop push : Nat} (hfits : s.height + push < Quantity.limit) :
    s.check pop push =
      if s.height < pop then .error .stackUnderflow
      else if s.limit < s.height - pop + push then .error .stackOverflow
      else .ok () := by
  have hsum : s.height - pop + push < Quantity.limit :=
    Nat.lt_of_le_of_lt (Nat.add_le_add_right (Nat.sub_le _ _) _) hfits
  rw [Stack.check, Stack.heightAfter_eq hsum]

lemma check_eq_underflow_iff {pop push : Nat} (hfits : s.height + push < Quantity.limit) :
    s.check pop push = .error .stackUnderflow ↔ s.height < pop := by
  rw [check_eq hfits]
  by_cases hpop : s.height < pop
  · simp only [hpop, if_true]
  · rw [if_neg hpop]
    by_cases hpush : s.limit < s.height - pop + push <;> simp [hpop, hpush]

lemma check_eq_overflow_iff {pop push : Nat} (hfits : s.height + push < Quantity.limit) :
    s.check pop push = .error .stackOverflow ↔
      pop ≤ s.height ∧ s.limit < s.height - pop + push := by
  rw [check_eq hfits]
  by_cases hpop : s.height < pop
  · simp [hpop, Nat.not_le_of_lt hpop]
  · rw [if_neg hpop]
    by_cases hpush : s.limit < s.height - pop + push <;> simp [Nat.le_of_not_lt hpop, hpush]

/-- The check comes to what the exchange comes to. -/
theorem exchange_result (hs : s.height ≤ s.limit) (count : Nat)
    (hfits : s.height + words.length < Quantity.limit) :
    (exchange count words s).1 = s.check count words.length := by
  by_cases hpop : count ≤ s.height
  · by_cases hpush : s.height - count + words.length ≤ s.limit
    · rw [exchange_room hpop hpush, check_eq hfits, if_neg (Nat.not_lt_of_le hpop),
        if_neg (Nat.not_lt_of_le hpush)]
    · have hpast : s.limit < s.height - count + words.length := Nat.lt_of_not_le hpush
      rw [exchange_overflow hs hpop hpast, (check_eq_overflow_iff hfits).mpr ⟨hpop, hpast⟩]
  · have hshort : s.height < count := Nat.lt_of_not_le hpop
    rw [exchange_underflow hshort, (check_eq_underflow_iff hfits).mpr hshort]

lemma popFailsFirst_iff : PopFailsFirst s count ↔ s.height < count := by
  constructor
  · rintro ⟨taken, htaken, t, f, htake, hfault⟩
    rw [popMany_eq (le_height_of_popMany htake)] at htake
    cases htake
    -- A pop fails on an empty stack only, so that all items were taken before.
    cases hleft : s.items.drop taken with
    | nil => exact Nat.lt_of_le_of_lt (List.drop_eq_nil_iff.mp hleft) htaken
    | cons top rest =>
      rw [hleft] at hfault
      cases hfault
  · intro hshort
    refine ⟨s.height, hshort, _, .stackUnderflow, popMany_eq (Nat.le_refl _), ?_⟩
    rw [Stack.height, List.drop_length]
    rfl

lemma pushFailsFirst_iff (hs : s.height ≤ s.limit) :
    PushFailsFirst s count words ↔
      count ≤ s.height ∧ s.limit < s.height - count + words.length := by
  constructor
  · rintro ⟨before, w, after, t, f, rfl, hexchange, hfault⟩
    obtain ⟨hpop, hpush⟩ := room_of_exchange hs hexchange
    rw [exchange_room hpop hpush] at hexchange
    cases hexchange
    refine ⟨hpop, ?_⟩
    rw [List.length_append, List.length_cons]
    apply Nat.lt_of_not_le
    intro hroom
    rw [push_ok] at hfault
    · cases hfault
    · rw [height_exchanged]
      exact Nat.lt_of_lt_of_le (by omega) hroom
  · rintro ⟨hpop, hpast⟩
    -- The words that there is room for are put on top, and the next one is refused.
    let room := s.limit - (s.height - count)
    have hplace : room < words.length := by omega
    have htaken : (words.take room).length = room := List.length_take_of_le (Nat.le_of_lt hplace)
    refine ⟨words.take room, words[room], words.drop (room + 1), _, .stackOverflow, ?_,
      exchange_room hpop (by omega), ?_⟩
    · rw [List.getElem_cons_drop, List.take_append_drop]
    · rw [push_fault]
      rw [height_exchanged, htaken]
      show s.limit ≤ s.height - count + (s.limit - (s.height - count))
      omega

/-- What is refused leaves the stack as it was. -/
lemma apply_refused {f : Fault} (use : StackUse) (h : use.apply s = (.error f, t)) : t = s := by
  cases use with
  | push w =>
    by_cases hroom : s.height < s.limit
    · rw [StackUse.apply, push_ok w hroom] at h
      cases h
    · rw [StackUse.apply, push_fault w (Nat.le_of_not_lt hroom)] at h
      cases h
      rfl
  | pop =>
    obtain ⟨items, limit⟩ := s
    cases items with
    | nil =>
      cases h
      rfl
    | cons top rest => cases h
  | set n w =>
    simp only [StackUse.apply, Stack.set] at h
    by_cases hn : n < s.height
    · rw [if_pos hn] at h
      cases h
    · rw [if_neg hn] at h
      cases h
      rfl
  | peek n | peekQuantity n => exact (Prod.mk.inj h).2.symm

lemma apply_height (use : StackUse) (hs : s.height ≤ s.limit) :
    (use.apply s).2.height ≤ (use.apply s).2.limit ∧ (use.apply s).2.limit = s.limit := by
  cases use with
  | push w =>
    by_cases hroom : s.height < s.limit
    · rw [StackUse.apply, push_ok w hroom]
      exact ⟨hroom, rfl⟩
    · rw [StackUse.apply, push_fault w (Nat.le_of_not_lt hroom)]
      exact ⟨hs, rfl⟩
  | pop =>
    obtain ⟨items, limit⟩ := s
    cases items with
    | nil => exact ⟨hs, rfl⟩
    | cons top rest => exact ⟨Nat.le_of_succ_le hs, rfl⟩
  | set n w =>
    simp only [StackUse.apply, Stack.set]
    by_cases hn : n < s.height
    · rw [if_pos hn]
      exact ⟨Nat.le_trans (Nat.le_of_eq List.length_set) hs, rfl⟩
    · rw [if_neg hn]
      exact ⟨hs, rfl⟩
  | peek n | peekQuantity n => exact ⟨hs, rfl⟩

/-- However a stack is used, it stays within its limit. -/
theorem useStack_height (uses : List StackUse) (hs : s.height ≤ s.limit) :
    (useStack uses s).height ≤ (useStack uses s).limit ∧ (useStack uses s).limit = s.limit := by
  induction uses generalizing s with
  | nil => exact ⟨hs, rfl⟩
  | cons use rest ih =>
    obtain ⟨hnext, hlimit⟩ := apply_height use hs
    obtain ⟨hheight, hrest⟩ := ih hnext
    exact ⟨hheight, hrest.trans hlimit⟩

/-- The check of a stack foretells whether so many items can be taken and so many words be put on
top, one by one. It names the fault of the first step that fails, if one does. What is refused on
the way leaves the stack as it was, and nothing that is done to a stack takes it past its limit. -/
theorem check_foretells_exchange (s : Stack) (hs : s.height ≤ s.limit) :
    (∀ count (words : List Word), s.height + words.length < Quantity.limit →
      (s.check count words.length = .ok () ↔ ∃ t, exchange count words s = (.ok (), t)) ∧
      (s.check count words.length = .error .stackUnderflow ↔ PopFailsFirst s count) ∧
      (s.check count words.length = .error .stackOverflow ↔ PushFailsFirst s count words) ∧
      (exchange count words s).1 = s.check count words.length) ∧
    (∀ (use : StackUse) t t' f, use.apply t = (.error f, t') → t' = t) ∧
    ∀ uses, (useStack uses s).height ≤ (useStack uses s).limit ∧
      (useStack uses s).limit = s.limit := by
  refine ⟨?_, fun use t t' f h => apply_refused use h, fun uses => useStack_height uses hs⟩
  intro count words hfits
  have hresult := exchange_result hs count hfits
  refine ⟨?_, ?_, ?_, hresult⟩
  · rw [← hresult]
    exact ⟨fun h => ⟨_, Prod.ext h rfl⟩, fun ⟨t, h⟩ => by rw [h]⟩
  · rw [check_eq_underflow_iff hfits, popFailsFirst_iff]
  · rw [check_eq_overflow_iff hfits, pushFailsFirst_iff hs]

/-- A stack with one free place. -/
def almostFullStack : Stack := ⟨[7, 8], 3⟩

/-- Three words in the place of two items fit exactly, a fourth one is the first that is refused,
and of three items the last is missing. -/
theorem check_foretells_exchange_almostFullStack :
    (∃ t, exchange 2 [1, 2, 3] almostFullStack = (.ok (), t)) ∧
      PushFailsFirst almostFullStack 2 [1, 2, 3, 4] ∧ PopFailsFirst almostFullStack 3 ∧
      (useStack [.push 1, .push 2, .pop, .set 9 0, .push 3] almostFullStack).height ≤ 3 := by
  obtain ⟨hchecks, -, huses⟩ := check_foretells_exchange almostFullStack (by decide)
  obtain ⟨hfits, -⟩ := hchecks 2 [1, 2, 3] (by decide)
  obtain ⟨-, -, hhigh, -⟩ := hchecks 2 [1, 2, 3, 4] (by decide)
  obtain ⟨-, hlow, -⟩ := hchecks 3 [] (by decide)
  obtain ⟨hheight, hlimit⟩ := huses [.push 1, .push 2, .pop, .set 9 0, .push 3]
  exact ⟨hfits.mp rfl, hhigh.mp rfl, hlow.mp rfl, Nat.le_trans hheight (Nat.le_of_eq hlimit)⟩

end ContractMachine.Proofs
