import ContractMachine.Proofs.Termination

/-!
# The memory that instructions need

An instruction touches windows of memory, which the operands that it takes describe. Its footprint
is read off the stack by the places of the operands, before any of them is taken. Every window ends
where the footprint ends, at the latest, and an instruction with a window that ends past the
quantities is refused.
-/

namespace ContractMachine.Proofs

section Vetting

variable {β φ : Type} [Behaviour β φ]

/-- The length that the memory has to have for an operation, in whole words. -/
def memoryNeed (o : Operation β φ) (stack : Stack) : Except Fault (Option Nat) :=
  match o.footprint with
  | none => .ok none
  | some footprint => Behaviour.stop β stack footprint >>= Footprint.align

/-- The checks that an operation goes through, in their order, and what each of them says. -/
inductive Vetting (ex : Executor β φ) (op : Opcode) (o : Operation β φ) (stack : Stack) :
    Except Fault (Option Nat) → Prop
  | undefined (hvalid : o.valid = false) : Vetting ex op o stack (.error (.invalidCode op))
  | unfit {f : Fault} (hvalid : o.valid = true) (hcheck : o.checkStack stack = .error f) :
    Vetting ex op o stack (.error f)
  | unreadable {f : Fault} (hvalid : o.valid = true) (hcheck : o.checkStack stack = .ok ())
      (hrefuses : ex.refusesWrite op o stack = .error f) : Vetting ex op o stack (.error f)
  | readOnly (hvalid : o.valid = true) (hcheck : o.checkStack stack = .ok ())
      (hrefuses : ex.refusesWrite op o stack = .ok true) :
    Vetting ex op o stack (.error .writeProtection)
  | measured (hvalid : o.valid = true) (hcheck : o.checkStack stack = .ok ())
      (hrefuses : ex.refusesWrite op o stack = .ok false) :
    Vetting ex op o stack (memoryNeed o stack)

theorem vet_vetting (ex : Executor β φ) (op : Opcode) (o : Operation β φ) (stack : Stack) :
    Vetting ex op o stack (ex.vet op o stack) := by
  unfold Executor.vet
  cases hvalid : o.valid with
  | false => exact .undefined hvalid
  | true =>
    cases hcheck : o.checkStack stack with
    | error f => exact .unfit hvalid hcheck
    | ok u =>
      cases hrefuses : ex.refusesWrite op o stack with
      | error f => exact .unreadable hvalid hcheck hrefuses
      | ok refuses =>
        cases refuses with
        | true => exact .readOnly hvalid hcheck hrefuses
        | false =>
          have hmeasured := Vetting.measured hvalid hcheck hrefuses
          unfold memoryNeed at hmeasured
          simp only [Bool.not_true, Bool.false_eq_true, if_false]
          exact hmeasured

/-- What is said of an operation that has gone through all checks. -/
lemma vet_ok {ex : Executor β φ} {op : Opcode} {o : Operation β φ} {stack : Stack}
    {memoryEnd : Option Nat} (h : ex.vet op o stack = .ok memoryEnd) :
    o.valid = true ∧ o.checkStack stack = .ok () ∧ memoryNeed o stack = .ok memoryEnd := by
  have hvetting := vet_vetting ex op o stack
  generalize hresult : ex.vet op o stack = result at hvetting
  rw [hresult] at h
  cases hvetting with
  | undefined hvalid | unfit hvalid hcheck | unreadable hvalid hcheck hrefuses
  | readOnly hvalid hcheck hrefuses => cases h
  | measured hvalid hcheck hrefuses => exact ⟨hvalid, hcheck, h⟩

end Vetting

lemma check_ok {s : Stack} {pop push : Nat} (h : s.check pop push = .ok ()) :
    pop ≤ s.height ∧ s.heightAfter pop push ≤ s.limit := by
  unfold Stack.check at h
  by_cases hshort : s.height < pop
  · rw [if_pos hshort] at h
    cases h
  · rw [if_neg hshort] at h
    by_cases hhigh : s.limit < s.heightAfter pop push
    · rw [if_pos hhigh] at h
      cases h
    · exact ⟨Nat.le_of_not_lt hshort, Nat.le_of_not_lt hhigh⟩

lemma standard_push_le (i : Instruction) :
    (Operation.standard i).push ≤ (Operation.standard i).pop + 1 := by
  cases i with
  | dup n => exact Nat.le_refl (n + 1)
  | swap n => exact Nat.le_succ (n + 1)
  | log topics => exact Nat.zero_le _
  | call scheme => cases scheme <;> decide
  | unary op | binary op | ternary op | reading value | push width =>
    exact Nat.succ_le_succ (Nat.zero_le _)
  | _ => decide

/-- An instruction that passes the check has room for its results. -/
lemma checkStack_ok {i : Instruction} {s : Stack}
    (h : (Operation.standard i).checkStack s = .ok ()) :
    (Operation.standard i).pop ≤ s.height ∧
      s.height - (Operation.standard i).pop + (Operation.standard i).push ≤ s.limit := by
  obtain ⟨hoperands, hroom⟩ := check_ok h
  rw [Stack.heightAfter_of_le hoperands (standard_push_le i)] at hroom
  exact ⟨hoperands, hroom⟩

/-- The memory from an offset on, as many bytes as the length says. -/
structure Window where
  offset : Word
  length : Word

/-- The byte `k` is one of the window. -/
def Window.Has (w : Window) (k : Nat) : Prop :=
  w.offset.toNat ≤ k ∧ k < w.offset.toNat + w.length.toNat

/-- The window is empty, or it ends at `bound` at the latest. -/
def Window.Inside (w : Window) (bound : Nat) : Prop :=
  w.length = 0 ∨ w.offset.toNat + w.length.toNat ≤ bound

/-- The windows that an instruction reads or writes, by the operands in the order in which it takes
them. -/
def windows : Instruction → List Word → List Window
  | .sha3, offset :: length :: _ | .log _, offset :: length :: _ | .ret, offset :: length :: _
  | .callDataCopy, offset :: _ :: length :: _ | .codeCopy, offset :: _ :: length :: _
  | .extCodeCopy, _ :: offset :: _ :: length :: _ | .create, _ :: offset :: length :: _ =>
    [⟨offset, length⟩]
  | .mload, offset :: _ | .mstore, offset :: _ => [⟨offset, 32⟩]
  | .mstore8, offset :: _ => [⟨offset, 1⟩]
  | .call .delegateCall, _ :: _ :: inOffset :: inLength :: outOffset :: outLength :: _
  | .call .call, _ :: _ :: _ :: inOffset :: inLength :: outOffset :: outLength :: _
  | .call .callCode, _ :: _ :: _ :: inOffset :: inLength :: outOffset :: outLength :: _ =>
    [⟨inOffset, inLength⟩, ⟨outOffset, outLength⟩]
  | _, _ => []

/-- The region is empty, or offset and length are quantities. -/
def RegionFits (offset length : Word) : Prop :=
  length = 0 ∨ offset.toNat + length.toNat < Quantity.limit

lemma Window.Inside.mono {w : Window} {bound bound' : Nat} (h : w.Inside bound)
    (hle : bound ≤ bound') : w.Inside bound' := by
  obtain h | h := h
  · exact .inl h
  · exact .inr (Nat.le_trans h hle)

lemma Window.Inside.fits {w : Window} {bound : Nat} (h : w.Inside bound)
    (hbound : bound < Quantity.limit) : RegionFits w.offset w.length := by
  obtain h | h := h
  · exact .inl h
  · exact .inr (Nat.lt_of_le_of_lt h hbound)

lemma Window.Inside.lt {w : Window} {bound k : Nat} (h : w.Inside bound) (hk : w.Has k) :
    k < bound := by
  obtain h | h := h
  · have hnone := hk.2
    rw [h] at hnone
    exact absurd hk.1 (Nat.not_le_of_lt hnone)
  · exact Nat.lt_of_lt_of_le hk.2 h

/-- A footprint gives an end inside which all windows lie, or there is no such end among the
words. -/
def Bounds (ws : List Window) (stop : Except Fault (Option Nat)) : Prop :=
  (∃ bound, stop = .ok bound ∧ ∀ w ∈ ws, w.Inside (bound.getD 0)) ∨ stop = .error .gasUintOverflow

lemma bounds_endOf (offset length : Word) :
    Bounds [⟨offset, length⟩] (Footprint.endOf offset length) := by
  unfold Footprint.endOf
  by_cases hempty : length = 0
  · left
    exact ⟨none, if_pos hempty, List.forall_mem_singleton.mpr (.inl hempty)⟩
  · rw [if_neg hempty]
    by_cases hword : offset.toNat + length.toNat < Word.count
    · left
      exact ⟨_, if_pos hword, List.forall_mem_singleton.mpr (.inr (Nat.le_refl _))⟩
    · right
      exact if_neg hword

lemma le_later (a b : Option Nat) :
    a.getD 0 ≤ (Footprint.later a b).getD 0 ∧ b.getD 0 ≤ (Footprint.later a b).getD 0 := by
  cases a with
  | none => exact ⟨Nat.zero_le _, Nat.le_refl _⟩
  | some a =>
    cases b with
    | none => exact ⟨Nat.le_refl _, Nat.zero_le _⟩
    | some b => exact ⟨Nat.le_max_left a b, Nat.le_max_right a b⟩

lemma bounds_later {ws ws' : List Window} {stop stop' : Except Fault (Option Nat)}
    (h : Bounds ws stop) (h' : Bounds ws' stop') :
    Bounds (ws ++ ws') (do return Footprint.later (← stop) (← stop')) := by
  obtain ⟨bound, rfl, hinside⟩ | rfl := h
  · obtain ⟨bound', rfl, hinside'⟩ | rfl := h'
    · left
      refine ⟨_, rfl, ?_⟩
      intro w hw
      obtain hw | hw := List.mem_append.mp hw
      · exact (hinside w hw).mono (le_later bound bound').1
      · exact (hinside' w hw).mono (le_later bound bound').2
    · exact .inr rfl
  · exact .inr rfl

lemma exists_top {items : List Word} {n : Nat} (h : n + 1 ≤ items.length) :
    ∃ w rest, items = w :: rest ∧ n ≤ rest.length := by
  cases items with
  | nil => exact absurd h (Nat.not_succ_le_zero n)
  | cons w rest => exact ⟨w, rest, rfl, Nat.le_of_succ_le_succ h⟩

lemma exists_two {items : List Word} {n : Nat} (h : n + 2 ≤ items.length) :
    ∃ a b rest, items = a :: b :: rest ∧ n ≤ rest.length := by
  obtain ⟨a, tail, rfl, htail⟩ := exists_top h
  obtain ⟨b, rest, rfl, hrest⟩ := exists_top htail
  exact ⟨a, b, rest, rfl, hrest⟩

lemma exists_three {items : List Word} {n : Nat} (h : n + 3 ≤ items.length) :
    ∃ a b c rest, items = a :: b :: c :: rest ∧ n ≤ rest.length := by
  obtain ⟨a, tail, rfl, htail⟩ := exists_top h
  obtain ⟨b, c, rest, rfl, hrest⟩ := exists_two htail
  exact ⟨a, b, c, rest, rfl, hrest⟩

lemma exists_four {items : List Word} {n : Nat} (h : n + 4 ≤ items.length) :
    ∃ a b c d rest, items = a :: b :: c :: d :: rest ∧ n ≤ rest.length := by
  obtain ⟨a, tail, rfl, htail⟩ := exists_top h
  obtain ⟨b, c, d, rest, rfl, hrest⟩ := exists_three htail
  exact ⟨a, b, c, d, rest, rfl, hrest⟩

lemma exists_append {items : List Word} {n : Nat} (h : n ≤ items.length) :
    ∃ taken rest, items = taken ++ rest ∧ taken.length = n :=
  ⟨items.take n, items.drop n, (List.take_append_drop n items).symm, List.length_take_of_le h⟩

/-- The places at which a footprint looks are those of the operands that the instruction takes. -/
theorem bounds_stop {i : Instruction} {footprint : Footprint}
    (hfootprint : (Operation.standard i).footprint = some footprint) {items : List Word}
    (limit : Nat) (hitems : (Operation.standard i).pop ≤ items.length) :
    Bounds (windows i items) (footprint.stop ⟨items, limit⟩) := by
  cases i with
  | sha3 | ret =>
    cases hfootprint
    obtain ⟨offset, length, rest, rfl, -⟩ := exists_two (n := 0) hitems
    exact bounds_endOf offset length
  | log topics =>
    cases hfootprint
    obtain ⟨offset, length, rest, rfl, -⟩ := exists_two hitems
    exact bounds_endOf offset length
  | mstore | mstore8 =>
    cases hfootprint
    obtain ⟨offset, value, rest, rfl, -⟩ := exists_two (n := 0) hitems
    exact bounds_endOf offset _
  | mload =>
    cases hfootprint
    obtain ⟨offset, rest, rfl, -⟩ := exists_top hitems
    exact bounds_endOf offset 32
  | callDataCopy | codeCopy =>
    cases hfootprint
    obtain ⟨offset, sourceOffset, length, rest, rfl, -⟩ := exists_three (n := 0) hitems
    exact bounds_endOf offset length
  | extCodeCopy =>
    cases hfootprint
    obtain ⟨address, offset, sourceOffset, length, rest, rfl, -⟩ := exists_four (n := 0) hitems
    exact bounds_endOf offset length
  | create =>
    cases hfootprint
    obtain ⟨value, offset, length, rest, rfl, -⟩ := exists_three (n := 0) hitems
    exact bounds_endOf offset length
  | call scheme =>
    cases scheme with
    | call | callCode =>
      cases hfootprint
      obtain ⟨gas, target, value, tail, rfl, htail⟩ := exists_three (n := 4) hitems
      obtain ⟨inOffset, inLength, outOffset, outLength, rest, rfl, -⟩ := exists_four (n := 0) htail
      exact bounds_later (bounds_endOf inOffset inLength) (bounds_endOf outOffset outLength)
    | delegateCall =>
      cases hfootprint
      obtain ⟨gas, target, tail, rfl, htail⟩ := exists_two (n := 4) hitems
      obtain ⟨inOffset, inLength, outOffset, outLength, rest, rfl, -⟩ := exists_four (n := 0) htail
      exact bounds_later (bounds_endOf inOffset inLength) (bounds_endOf outOffset outLength)
  | _ => cases hfootprint

lemma windows_eq_nil {i : Instruction} (h : (Operation.standard i).footprint = none)
    (items : List Word) : windows i items = [] := by
  cases i with
  | sha3 | callDataCopy | codeCopy | extCodeCopy | mload | mstore | mstore8 | log | create | ret =>
    cases h
  | call scheme => cases scheme <;> cases h
  | _ => rfl

lemma wordAlign_wordAlign (n : Nat) :
    Quantity.wordAlign (Quantity.wordAlign n) = Quantity.wordAlign n := by
  unfold Quantity.wordAlign
  omega

/-- What is asked for covers the end of the footprint, in whole words, and is a quantity. -/
lemma align_covers {stop memoryEnd : Option Nat} (h : Footprint.align stop = .ok memoryEnd) :
    stop.getD 0 ≤ memoryEnd.getD 0 ∧ memoryEnd.getD 0 < Quantity.limit ∧
      Quantity.wordAlign (memoryEnd.getD 0) = memoryEnd.getD 0 := by
  cases stop with
  | none =>
    cases h
    exact ⟨Nat.le_refl 0, by decide, rfl⟩
  | some stop =>
    rw [Footprint.align_some] at h
    split at h
    · next hfits =>
      cases h
      exact ⟨Quantity.le_wordAlign stop, hfits.2, wordAlign_wordAlign stop⟩
    · cases h

section Growing

variable {β φ : Type} [Behaviour β φ] {o : Operation β φ} {stack : Stack} {memoryEnd : Option Nat}

/-- Whatever operands a footprint looks at, what is asked for is a quantity, in whole words. -/
lemma memoryNeed_quantity (hneed : memoryNeed o stack = .ok memoryEnd) :
    memoryEnd.getD 0 < Quantity.limit ∧
      Quantity.wordAlign (memoryEnd.getD 0) = memoryEnd.getD 0 := by
  unfold memoryNeed at hneed
  cases hfootprint : o.footprint with
  | none =>
    rw [hfootprint] at hneed
    cases hneed
    exact ⟨by decide, rfl⟩
  | some footprint =>
    simp only [hfootprint] at hneed
    cases hstop : Behaviour.stop β stack footprint with
    | error f =>
      rw [hstop] at hneed
      cases hneed
    | ok bound =>
      rw [hstop] at hneed
      exact (align_covers hneed).2

/-- The memory can be grown as asked for, unless that is past its limit. -/
lemma grow_cases (hneed : memoryNeed o stack = .ok memoryEnd) (m : Machine) :
    (∃ stop, memoryEnd = some stop ∧ m.memory.size < stop ∧ m.memory.limit < stop ∧
        Machine.grow memoryEnd m = (.error .outOfGas, m)) ∨
      ((∀ stop, memoryEnd = some stop → stop ≤ m.memory.size ∨ stop ≤ m.memory.limit) ∧
        ∃ grown, Machine.grow memoryEnd m = (.ok (), grown)) := by
  cases memoryEnd with
  | none => exact .inr ⟨(fun stop hnone => by cases hnone), m, rfl⟩
  | some stop =>
    obtain ⟨hquantity, haligned⟩ := memoryNeed_quantity hneed
    obtain ⟨code, input, position, start, last, jumps, ⟨data, limit⟩, stack⟩ := m
    simp only [Option.getD_some] at hquantity haligned
    simp only [Machine.grow, Machine.onMemory, Memory.resize_eq, haligned,
      if_neg (Nat.not_le_of_lt hquantity), Option.some.injEq, forall_eq', exists_eq_left']
    by_cases hcovered : stop ≤ data.size
    · rw [if_pos hcovered]
      exact .inr ⟨.inl hcovered, _, rfl⟩
    · by_cases hlimit : limit < stop
      · rw [if_neg hcovered, if_pos hlimit]
        exact .inl ⟨Nat.lt_of_not_le hcovered, hlimit, rfl⟩
      · rw [if_neg hcovered, if_neg hlimit]
        exact .inr ⟨.inr (Nat.le_of_not_lt hlimit), _, rfl⟩

lemma grow_refused {m grown : Machine} {f : Fault} (hneed : memoryNeed o stack = .ok memoryEnd)
    (h : Machine.grow memoryEnd m = (.error f, grown)) : f = .outOfGas := by
  obtain ⟨stop, -, -, -, hrefused⟩ | ⟨-, grown', hgrow⟩ := grow_cases hneed m
  · rw [hrefused] at h
    cases h
    rfl
  · rw [hgrow] at h
    cases h

end Growing

/-- An instruction that has its operands needs memory up to an end inside which its windows lie, or
there is no such end. -/
theorem memoryNeed_cases {i : Instruction} {stack : Stack}
    (hitems : (Operation.standard i).pop ≤ stack.height) :
    (∃ bound, memoryNeed (.standard i) stack = Footprint.align bound ∧
        ∀ w ∈ windows i stack.items, w.Inside (bound.getD 0)) ∨
      memoryNeed (.standard i) stack = .error .gasUintOverflow := by
  unfold memoryNeed
  cases hfootprint : (Operation.standard i).footprint with
  | none =>
    rw [windows_eq_nil hfootprint]
    exact .inl ⟨none, rfl, fun _ hw => by cases hw⟩
  | some footprint =>
    obtain ⟨bound, hstop, hinside⟩ | hstop := bounds_stop hfootprint stack.limit hitems
    · simp only [stop_footprint, hstop]
      exact .inl ⟨bound, rfl, hinside⟩
    · simp only [stop_footprint, hstop]
      exact .inr rfl

section Need

variable {i : Instruction} {stack : Stack} (hitems : (Operation.standard i).pop ≤ stack.height)
include hitems

/-- All windows end inside the memory that is asked for. -/
theorem windows_inside {memoryEnd : Option Nat}
    (hneed : memoryNeed (.standard i) stack = .ok memoryEnd) :
    ∀ w ∈ windows i stack.items, w.Inside (memoryEnd.getD 0) := by
  obtain ⟨bound, halign, hinside⟩ | hoverflow := memoryNeed_cases hitems
  · rw [halign] at hneed
    exact fun w hw => (hinside w hw).mono (align_covers hneed).1
  · rw [hoverflow] at hneed
    cases hneed

/-- A window whose end, in whole words, is no quantity is refused before anything is charged. -/
theorem memoryNeed_overflow {w : Window} (hw : w ∈ windows i stack.items) (hlength : w.length ≠ 0)
    (hend : Quantity.limit ≤ Quantity.wordAlign (w.offset.toNat + w.length.toNat)) :
    memoryNeed (.standard i) stack = .error .gasUintOverflow := by
  obtain ⟨bound, halign, hinside⟩ | hoverflow := memoryNeed_cases hitems
  · have hle := (hinside w hw).resolve_left hlength
    rw [halign]
    cases bound with
    | none =>
      simp only [Option.getD_none, Nat.le_zero] at hle
      rw [hle] at hend
      exact absurd hend (by decide)
    | some stop =>
      rw [Footprint.align_some]
      apply if_neg
      rintro ⟨-, hfits⟩
      have hmono : Quantity.wordAlign (w.offset.toNat + w.length.toNat) ≤
          Quantity.wordAlign stop :=
        Nat.mul_le_mul_right 32 (Nat.div_le_div_right (Nat.add_le_add_right hle 31))
      exact absurd (Nat.lt_of_le_of_lt (Nat.le_trans hend hmono) hfits) (Nat.lt_irrefl _)
  · exact hoverflow

end Need

/-- What a vetted instruction takes is there, and the windows that it touches end at quantities. -/
lemma vet_fits {ex : Executor} {op : Opcode} {i : Instruction} {stack : Stack}
    {memoryEnd : Option Nat} (h : ex.vet op (.standard i) stack = .ok memoryEnd) :
    (Operation.standard i).pop ≤ stack.height ∧
      ∀ w ∈ windows i stack.items, RegionFits w.offset w.length := by
  obtain ⟨-, hcheck, hneed⟩ := vet_ok h
  have hoperands := (check_ok hcheck).1
  have hlimit := (memoryNeed_quantity hneed).1
  exact ⟨hoperands, fun w hw => (windows_inside hoperands hneed w hw).fits hlimit⟩

/-- Growing covers what it was asked for. -/
lemma grow_covers {memoryEnd : Option Nat} {m grown : Machine}
    (h : Machine.grow memoryEnd m = (.ok (), grown)) : memoryEnd.getD 0 ≤ grown.memory.size := by
  cases memoryEnd with
  | none => exact Nat.zero_le _
  | some stop =>
    obtain ⟨code, input, position, start, last, jumps, ⟨data, limit⟩, stack⟩ := m
    simp only [Machine.grow, Machine.onMemory, Memory.resize_eq] at h
    by_cases hcovered : stop ≤ data.size
    · rw [if_pos hcovered, Prod.mk.injEq] at h
      rw [← h.2]
      exact hcovered
    · rw [if_neg hcovered] at h
      split at h
      · simp at h
      · split at h
        · simp at h
        · simp only [Prod.mk.injEq, true_and] at h
          have hle := Quantity.le_wordAlign stop
          rw [← h]
          simp only [Memory.size, Array.size_append, Array.size_replicate, Option.getD_some]
          omega

/-- The window is empty, or it lies inside the memory and its ends are quantities. -/
structure Window.Covered (w : Window) (memory : Memory) : Prop where
  fits : RegionFits w.offset w.length
  inside : w.Inside memory.size

/-- The machine has the operands of an instruction, room for its results, and its windows. -/
structure Supplied (i : Instruction) (m : Machine) : Prop where
  operands : (Operation.standard i).pop ≤ m.stack.height
  room : m.stack.height - (Operation.standard i).pop + (Operation.standard i).push ≤ m.stack.limit
  covered : ∀ w ∈ windows i m.stack.items, w.Covered m.memory

/-- A checked stack and a memory that has grown to the need supply the instruction. -/
theorem supplied_of_grown {i : Instruction} {m grown : Machine} {memoryEnd : Option Nat}
    (hcheck : (Operation.standard i).checkStack m.stack = .ok ())
    (hneed : memoryNeed (.standard i) m.stack = .ok memoryEnd)
    (hgrow : Machine.grow memoryEnd m = (.ok (), grown)) : Supplied i grown := by
  obtain ⟨hoperands, hroom⟩ := checkStack_ok hcheck
  have hlimit := (memoryNeed_quantity hneed).1
  have hinside := windows_inside hoperands hneed
  have hcovers := grow_covers hgrow
  have hstack := grow_stack hgrow
  constructor
  · rw [hstack]
    exact hoperands
  · rw [hstack]
    exact hroom
  · intro w hw
    rw [hstack] at hw
    exact ⟨(hinside w hw).fits hlimit, (hinside w hw).mono hcovers⟩

end ContractMachine.Proofs
