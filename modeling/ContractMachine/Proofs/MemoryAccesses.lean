import ContractMachine.Proofs.StackEffects

/-!
# The memory that instructions access

Whatever an instruction reads of the memory lies in its windows: it does the same on any other
memory, of any length, that has the same bytes there. Whatever it writes lies there too. As the
memory has grown over all windows before the instruction is performed, no byte outside the memory
that is paid for is read or written.
-/

namespace ContractMachine.Proofs

/-- The machine with another memory. -/
def withMemory (memory : Memory) (m : Machine) : Machine := { m with memory := memory }

/-- The byte `k` is in one of the windows of the instruction. -/
def Touches (i : Instruction) (items : List Word) (k : Nat) : Prop :=
  ∃ w ∈ windows i items, w.Has k

/-- Where `R` holds, both memories have a byte, and it is the same. -/
def SameBytes (R : Nat → Prop) (a b : Memory) : Prop :=
  ∀ k, R k → ∃ byte, a.data[k]? = some byte ∧ b.data[k]? = some byte

/-- Both results are the same but for the memory, which has the same bytes where `R` holds. -/
inductive AgreeOn (R : Nat → Prop) :
    Option (Control × Machine × Executor) → Option (Control × Machine × Executor) → Prop
  | endless : AgreeOn R none none
  | ended {control : Control} {done : Machine} {after : Executor} {memory : Memory}
      (hsame : SameBytes R done.memory memory) :
    AgreeOn R (some (control, done, after)) (some (control, withMemory memory done, after))

/-- On the machine `m` it reads bytes and changes bytes only where `R` holds. -/
structure Confined (R : Nat → Prop) (x : Machine → Option (Control × Machine × Executor))
    (m : Machine) : Prop where
  reads : ∀ memory, SameBytes R m.memory memory → AgreeOn R (x m) (x (withMemory memory m))
  writes : ∀ control done after, x m = some (control, done, after) →
    done.memory.size = m.memory.size ∧
      ∀ k, ¬ R k → done.memory.data[k]? = m.memory.data[k]?

lemma SameBytes.mono {R S : Nat → Prop} {a b : Memory} (h : SameBytes R a b)
    (hsub : ∀ k, S k → R k) : SameBytes S a b := fun k hk => h k (hsub k hk)

lemma sameBytes_self {R : Nat → Prop} {a : Memory} (h : ∀ k, R k → k < a.size) :
    SameBytes R a a := by
  intro k hk
  have hlt : k < a.data.size := h k hk
  exact ⟨_, Array.getElem?_eq_getElem hlt, Array.getElem?_eq_getElem hlt⟩

lemma read_eq {a b : Memory} {offset size : Nat}
    (h : SameBytes (fun k => offset ≤ k ∧ k < offset + size) a b) :
    b.read offset size = a.read offset size := by
  unfold Memory.read Bytes.window
  congr 1
  funext i
  obtain ⟨byte, ha, hb⟩ := h (offset + i) ⟨Nat.le_add_right _ _, Nat.add_lt_add_left i.isLt _⟩
  simp only [Bytes.at0, Array.getD_eq_getD_getElem?, ha, hb]

/-- Byte `k` of memory that has been overwritten from `start` on. -/
lemma getElem?_overwrite (source : Nat → UInt8) (start count : Nat) (data : Bytes) (k : Nat) :
    (Memory.overwrite source start count data)[k]? =
      if start ≤ k ∧ k < start + count ∧ k < data.size then some (source (k - start))
      else data[k]? := by
  induction count generalizing data with
  | zero =>
    rw [if_neg (by omega)]
    rfl
  | succ count ih =>
    rw [Memory.overwrite, ih, Array.size_setIfInBounds, Array.getElem?_setIfInBounds]
    by_cases hlast : start + count = k
    · subst hlast
      by_cases hsize : start + count < data.size
      · rw [if_neg (by omega), if_pos rfl, if_pos hsize, if_pos (by omega),
          Nat.add_sub_cancel_left]
      · rw [if_neg (by omega), if_pos rfl, if_neg hsize, if_neg (by omega),
          Array.getElem?_eq_none (Nat.le_of_not_lt hsize)]
    · rw [if_neg hlast]
      have hinside : (start ≤ k ∧ k < start + count ∧ k < data.size) ↔
          (start ≤ k ∧ k < start + (count + 1) ∧ k < data.size) := by
        omega
      simp only [hinside]

lemma SameBytes.overwrite {R : Nat → Prop} {a b : Memory} (h : SameBytes R a b) (start count : Nat)
    (source : Nat → UInt8) :
    SameBytes R ⟨Memory.overwrite source start count a.data, a.limit⟩
      ⟨Memory.overwrite source start count b.data, b.limit⟩ := by
  intro k hk
  obtain ⟨byte, ha, hb⟩ := h k hk
  have hsizes : k < a.data.size ∧ k < b.data.size :=
    ⟨(Array.getElem?_eq_some_iff.mp ha).1, (Array.getElem?_eq_some_iff.mp hb).1⟩
  simp only [getElem?_overwrite, hsizes, and_true]
  by_cases hinside : start ≤ k ∧ k < start + count
  · exact ⟨_, if_pos hinside, if_pos hinside⟩
  · exact ⟨byte, (if_neg hinside).trans ha, (if_neg hinside).trans hb⟩

/-- A window that is covered in one memory is so in each that has its bytes. -/
lemma Window.Covered.moved {w : Window} {memory memory' : Memory} (h : w.Covered memory)
    (hsame : SameBytes w.Has memory memory') : w.Covered memory' := by
  refine ⟨h.fits, ?_⟩
  by_cases hempty : w.length = 0
  · exact .inl hempty
  · right
    have hpos : 0 < w.length.toNat := by
      apply Nat.pos_of_ne_zero
      intro hzero
      exact hempty (BitVec.eq_of_toNat_eq hzero)
    obtain ⟨byte, -, hbyte⟩ := hsame (w.offset.toNat + w.length.toNat - 1) ⟨by omega, by omega⟩
    have hlast := (Array.getElem?_eq_some_iff.mp hbyte).1
    show w.offset.toNat + w.length.toNat ≤ memory'.data.size
    omega

/-! ### Instructions with windows -/

section Confinement

variable {R : Nat → Prop} {x : Machine → Option (Control × Machine × Executor)} {m : Machine}

/-- Whatever the memory, the result is the same but for bytes written where `R` holds. -/
lemma confined_of_written (m₀ : Machine) (control : Control) (after : Executor) (start count : Nat)
    (source : Nat → UInt8) (hinside : ∀ k, R k → k < m.memory.size)
    (hcount : ∀ k, start ≤ k → k < start + count → R k)
    (hx : ∀ memory, SameBytes R m.memory memory → x (withMemory memory m) =
      some (control, written start count source (withMemory memory m₀), after)) :
    Confined R x m := by
  have hself : x m = some (control, written start count source (withMemory m.memory m₀), after) :=
    hx m.memory (sameBytes_self hinside)
  constructor
  · intro memory hsame
    rw [hself, hx memory hsame]
    exact .ended (hsame.overwrite start count source)
  · intro control' done after' h
    rw [hself] at h
    cases h
    refine ⟨size_overwrite source start count m.memory.data, ?_⟩
    intro k hk
    show (Memory.overwrite source start count m.memory.data)[k]? = _
    rw [getElem?_overwrite, if_neg]
    rintro ⟨hstart, hstop, -⟩
    exact hk (hcount k hstart hstop)

lemma confined_of_read (m₀ : Machine) (control : Control) (after : Executor)
    (hinside : ∀ k, R k → k < m.memory.size)
    (hx : ∀ memory, SameBytes R m.memory memory → x (withMemory memory m) =
      some (control, withMemory memory m₀, after)) : Confined R x m :=
  confined_of_written m₀ control after 0 0 (fun _ => 0) hinside
    (fun _ _ hk => absurd hk (Nat.not_lt_zero _)) hx

lemma confined_of_endless (hinside : ∀ k, R k → k < m.memory.size)
    (hx : ∀ memory, SameBytes R m.memory memory → x (withMemory memory m) = none) :
    Confined R x m := by
  have hself : x m = none := hx m.memory (sameBytes_self hinside)
  constructor
  · intro memory hsame
    rw [hself, hx memory hsame]
    exact .endless
  · intro control done after h
    rw [hself] at h
    cases h

variable {ex : Executor} {action : Action Machine Unit}

lemma confined_of_writing (m₀ : Machine) (start count : Nat) (source : Nat → UInt8)
    (hinside : ∀ k, R k → k < m.memory.size)
    (hcount : ∀ k, start ≤ k → k < start + count → R k)
    (hx : ∀ memory, SameBytes R m.memory memory → action (withMemory memory m) =
      (.ok (), written start count source (withMemory memory m₀))) :
    Confined R (fun m => some (proceed action m ex)) m := by
  refine confined_of_written m₀ .proceed ex start count source hinside hcount ?_
  intro memory hsame
  simp only [proceed, hx memory hsame]

lemma confined_of_reading (m₀ : Machine) (hinside : ∀ k, R k → k < m.memory.size)
    (hx : ∀ memory, SameBytes R m.memory memory →
      action (withMemory memory m) = (.ok (), withMemory memory m₀)) :
    Confined R (fun m => some (proceed action m ex)) m := by
  refine confined_of_read m₀ .proceed ex hinside ?_
  intro memory hsame
  simp only [proceed, hx memory hsame]

end Confinement

variable {runner : Runner} {context : Context} {ex : Executor}

lemma touches_single {i : Instruction} {items : List Word} {w : Window}
    (h : windows i items = [w]) : Touches i items = w.Has := by
  funext k
  simp only [Touches, h, List.mem_singleton, exists_eq_left]

/-- Windows that are covered end inside the memory. -/
lemma touches_lt {i : Instruction} {m : Machine} (h : Supplied i m) (k : Nat)
    (hk : Touches i m.stack.items k) : k < m.memory.size := by
  obtain ⟨w, hw, hhas⟩ := hk
  exact (h.covered w hw).inside.lt hhas

/-- A copy writes the window that is named for it, and reads no memory. -/
lemma copy_confined {source : Machine → Bytes} {a b c : Word} {rest : List Word} {m : Machine}
    (hinside : ∀ k, Window.Has ⟨a, c⟩ k → k < m.memory.size)
    (hcovered : Window.Covered ⟨a, c⟩ m.memory)
    (hsource : ∀ items memory, source (withItems items (withMemory memory m)) = source m) :
    Confined (Window.Has ⟨a, c⟩) (fun m => some (proceed (Machine.copy source) m ex))
      (withItems (a :: b :: c :: rest) m) := by
  have hmoved {memory : Memory} (hsame : SameBytes (Window.Has ⟨a, c⟩) m.memory memory) :
      Window.Covered ⟨a, c⟩ memory := hcovered.moved hsame
  refine confined_of_writing (withItems rest m) a.toNat c.toNat
    (fun i => (source m).at0 (b.toNat + i)) hinside (fun k => And.intro) ?_
  intro memory hsame
  rw [← hsource rest memory]
  exact copy_eq (m := withMemory memory m) source (hmoved hsame)

/-- The data of a log is read from its window. -/
lemma log_confined {a b : Word} (taken : List Word) {rest : List Word} {m : Machine}
    (hinside : ∀ k, Window.Has ⟨a, b⟩ k → k < m.memory.size) (hfits : RegionFits a b) :
    Confined (Window.Has ⟨a, b⟩) (fun m => perform runner (.log taken.length) context m ex)
      (withItems (a :: b :: (taken ++ rest)) m) := by
  refine confined_of_read (withItems rest m) .proceed (ex.onWorld fun w =>
    w.log ⟨context.address, taken, m.memory.read a.toNat b.toNat⟩) hinside ?_
  intro memory hsame
  have hread : memory.read a.toNat b.toNat = m.memory.read a.toNat b.toNat := read_eq hsame
  have htake : Machine.takeLog taken.length
      (withMemory memory (withItems (a :: b :: (taken ++ rest)) m)) =
        (.ok (taken, memory.read a.toNat b.toNat), withMemory memory (withItems rest m)) :=
    takeLog_eq (m := withMemory memory m) taken hfits
  simp only [perform, takeThen, htake, hread]

/-- So is the code of a creation. -/
lemma create_confined {a b c : Word} {rest : List Word} {m : Machine}
    (hinside : ∀ k, Window.Has ⟨b, c⟩ k → k < m.memory.size) (hfits : RegionFits b c)
    (hroom : rest.length < m.stack.limit) :
    Confined (Window.Has ⟨b, c⟩) (fun m => perform runner .create context m ex)
      (withItems (a :: b :: c :: rest) m) := by
  have htake (memory : Memory) (hsame : SameBytes (Window.Has ⟨b, c⟩) m.memory memory) :
      Machine.takeCreation (withMemory memory (withItems (a :: b :: c :: rest) m)) =
        (.ok (a, m.memory.read b.toNat c.toNat), withItems rest (withMemory memory m)) := by
    have hread : memory.read b.toNat c.toNat = m.memory.read b.toNat c.toNat := read_eq hsame
    rw [← hread]
    exact takeCreation_eq (m := withMemory memory m) hfits
  cases hcreate : ex.create runner context.address a (m.memory.read b.toNat c.toNat) none with
  | none =>
    refine confined_of_endless hinside ?_
    intro memory hsame
    simp only [perform, takeThen, htake memory hsame, hcreate]
  | some result =>
    refine confined_of_read (withItems (foundedWord result.1.exit result.1.created :: rest) m)
      .proceed result.2 hinside ?_
    intro memory hsame
    have hfinish := finishCreation_eq (m := withMemory memory m) result.1.exit result.1.created
      hroom
    simp only [perform, takeThen, htake memory hsame, hcreate, proceed, hfinish]
    rfl

lemma request_eq {o : CallOperands} {a b : Memory} (h : SameBytes o.input.Has a b) :
    o.request b = o.request a := by
  have hread : b.read o.input.offset.toNat o.input.length.toNat =
      a.read o.input.offset.toNat o.input.length.toNat := read_eq h
  simp only [CallOperands.request, hread]

/-- A call reads its input and writes its output where both are set aside, and nothing else. -/
lemma call_confined {scheme : CallScheme} (items : List Word) {m : Machine}
    (hsupplied : Supplied (.call scheme) (withItems items m)) :
    Confined (Touches (.call scheme) items) (fun m => perform runner (.call scheme) context m ex)
      (withItems items m) := by
  have hinside := touches_lt hsupplied
  obtain ⟨o, rest, rfl, hroom, hwindows, -, hcovered, htake⟩ := hsupplied.call
  have htouches (w : Window) (hw : w ∈ [o.input, o.output]) (k : Nat) (hk : w.Has k) :
      Touches (.call scheme) (o.stacked scheme ++ rest) k := by
    rw [← hwindows] at hw
    exact ⟨w, hw, hk⟩
  have hinput := htouches o.input List.mem_cons_self
  have houtput := htouches o.output (List.mem_cons_of_mem _ List.mem_cons_self)
  have hrequest (memory : Memory)
      (hsame : SameBytes (Touches (.call scheme) (o.stacked scheme ++ rest)) m.memory memory) :
      Machine.takeCall scheme (withMemory memory (withItems (o.stacked scheme ++ rest) m)) =
        (.ok (o.request m.memory), withItems rest (withMemory memory m)) := by
    rw [← request_eq (hsame.mono hinput)]
    exact htake (withMemory memory m)
  cases hcall : ex.call runner (o.request m.memory).target
      (context.transferFor scheme (o.request m.memory).target (o.request m.memory).value)
      (o.request m.memory).input (o.request m.memory).gas.toQuantity? true
      (context.forCall scheme (o.request m.memory).target (o.request m.memory).value) with
  | none =>
    refine confined_of_endless hinside ?_
    intro memory hsame
    simp only [perform, takeThen, hrequest memory hsame, hcall]
  | some result =>
    have hreturned (k : Nat) (hstart : o.output.offset.toNat ≤ k)
        (hstop : k < o.output.offset.toNat +
          returned (o.request m.memory) result.1.exit result.1.output) :
        Touches (.call scheme) (o.stacked scheme ++ rest) k :=
      houtput k ⟨hstart, Nat.lt_of_lt_of_le hstop (Nat.add_le_add_left (returned_le _ _ _) _)⟩
    refine confined_of_written (withItems (Word.ofBool result.1.exit.isSuccess :: rest) m) .proceed
      result.2 _ _ result.1.output.at0 hinside hreturned ?_
    intro memory hsame
    have hfinish := finishCall_eq (m := withMemory memory m) (o.request m.memory) result.1.exit
      result.1.output (hcovered.moved (hsame.mono houtput)) hroom
    simp only [perform, takeThen, hrequest memory hsame, hcall, proceed, hfinish]
    rfl

lemma returning_withMemory (a b : Word) (memory : Memory) (m : Machine) :
    returning a b (withMemory memory m) = withMemory memory (returning a b m) := by
  unfold returning
  by_cases hempty : b = 0
  · rw [if_pos hempty, if_pos hempty]
    rfl
  · rw [if_neg hempty, if_neg hempty]
    rfl

lemma perform_items_confined {i : Instruction} (items : List Word) {m : Machine}
    (hfootprint : (Operation.standard i).footprint ≠ none)
    (hsupplied : Supplied i (withItems items m)) :
    Confined (Touches i items) (fun m => perform runner i context m ex) (withItems items m) := by
  have hoperands := hsupplied.operands
  have hroom := hsupplied.room
  have hcovered := hsupplied.covered
  have hinside := touches_lt hsupplied
  cases i with
  | sha3 =>
    obtain ⟨a, b, rest, rfl, -⟩ := exists_two (n := 0) hoperands
    have hfits := (hcovered ⟨a, b⟩ (List.mem_singleton_self _)).fits
    refine confined_of_reading (withItems (Keccak.digest (m.memory.read a.toNat b.toNat) :: rest) m)
      hinside ?_
    intro memory hsame
    rw [touches_single rfl] at hsame
    have hread : memory.read a.toNat b.toNat = m.memory.read a.toNat b.toNat := read_eq hsame
    rw [← hread]
    exact sha3_eq (m := withMemory memory m) hfits hroom
  | mload =>
    obtain ⟨a, rest, rfl, -⟩ := exists_top (n := 0) hoperands
    have hfits := (hcovered ⟨a, 32⟩ (List.mem_singleton_self _)).fits
    refine confined_of_reading (withItems (Word.ofBytes (m.memory.read a.toNat 32) :: rest) m)
      hinside ?_
    intro memory hsame
    rw [touches_single rfl] at hsame
    have hread : memory.read a.toNat 32 = m.memory.read a.toNat 32 := read_eq hsame
    rw [← hread]
    exact mload_eq (m := withMemory memory m) hfits hroom
  | callDataCopy =>
    obtain ⟨a, b, c, rest, rfl, -⟩ := exists_three (n := 0) hoperands
    have hwindow := hcovered ⟨a, c⟩ (List.mem_singleton_self _)
    rw [touches_single rfl] at hinside ⊢
    exact copy_confined hinside hwindow fun _ _ => rfl
  | codeCopy =>
    obtain ⟨a, b, c, rest, rfl, -⟩ := exists_three (n := 0) hoperands
    have hwindow := hcovered ⟨a, c⟩ (List.mem_singleton_self _)
    rw [touches_single rfl] at hinside ⊢
    exact copy_confined hinside hwindow fun _ _ => rfl
  | extCodeCopy =>
    obtain ⟨a, b, c, d, rest, rfl, -⟩ := exists_four (n := 0) hoperands
    have hwindow := hcovered ⟨b, d⟩ (List.mem_singleton_self _)
    rw [touches_single rfl] at hinside ⊢
    refine confined_of_writing (withItems rest m) b.toNat d.toNat
      (fun i => (ex.world.code a.toAddress).at0 (c.toNat + i)) hinside (fun k => And.intro) ?_
    intro memory hsame
    exact extCodeCopy_eq (m := withMemory memory m) _ (hwindow.moved hsame)
  | mstore =>
    obtain ⟨a, b, rest, rfl, -⟩ := exists_two (n := 0) hoperands
    have hwindow := hcovered ⟨a, 32⟩ (List.mem_singleton_self _)
    rw [touches_single rfl] at hinside ⊢
    refine confined_of_writing (withItems rest m) a.toNat 32 b.byteAt hinside
      (fun k => And.intro) ?_
    intro memory hsame
    exact mstore_eq (m := withMemory memory m) (hwindow.moved hsame)
  | mstore8 =>
    obtain ⟨a, b, rest, rfl, -⟩ := exists_two (n := 0) hoperands
    have hwindow := hcovered ⟨a, 1⟩ (List.mem_singleton_self _)
    rw [touches_single rfl] at hinside ⊢
    refine confined_of_writing (withItems rest m) a.toNat 1 (fun _ => b.byteAt 31) hinside
      (fun k => And.intro) ?_
    intro memory hsame
    exact mstore8_eq (m := withMemory memory m) (hwindow.moved hsame)
  | log topics =>
    obtain ⟨a, b, tail, rfl, htail⟩ := exists_two hoperands
    obtain ⟨taken, rest, rfl, rfl⟩ := exists_append htail
    have hfits := (hcovered ⟨a, b⟩ (List.mem_singleton_self _)).fits
    rw [touches_single rfl] at hinside ⊢
    exact log_confined taken hinside hfits
  | create =>
    obtain ⟨a, b, c, rest, rfl, -⟩ := exists_three (n := 0) hoperands
    have hfits := (hcovered ⟨b, c⟩ (List.mem_singleton_self _)).fits
    rw [touches_single rfl] at hinside ⊢
    exact create_confined hinside hfits hroom
  | call scheme => exact call_confined items hsupplied
  | ret =>
    obtain ⟨a, b, rest, rfl, -⟩ := exists_two (n := 0) hoperands
    have hfits := (hcovered ⟨a, b⟩ (List.mem_singleton_self _)).fits
    refine confined_of_read (returning a b (withItems rest m)) (.halt .returned) ex hinside ?_
    intro memory hsame
    have hret : Machine.ret (withMemory memory (withItems (a :: b :: rest) m)) =
        (.ok (), withMemory memory (returning a b (withItems rest m))) := by
      rw [← returning_withMemory]
      exact ret_eq (m := withMemory memory m) hfits
    simp only [perform, takeThen, hret]
  | _ => exact absurd rfl hfootprint

/-- On `m` the instruction accesses memory only where `R` holds, and so does the frame that returns
what the instruction names. It does not fault. -/
structure StaysIn (R : Nat → Prop) (runner : Runner) (i : Instruction) (context : Context)
    (ex : Executor) (m : Machine) : Prop where
  confined : Confined R (fun m => perform runner i context m ex) m
  returns : i = .ret → ∀ control done after, perform runner i context m ex =
    some (control, done, after) → ∀ k, done.returnStart ≤ k → k < done.returnStop → R k
  faultless : ∀ f done after, perform runner i context m ex ≠ some (.fault f, done, after)

lemma ret_returns {m done : Machine} {control : Control} {after : Executor} (items : List Word)
    (hsupplied : Supplied .ret (withItems items m))
    (h : perform runner .ret context (withItems items m) ex = some (control, done, after)) (k : Nat)
    (hstart : done.returnStart ≤ k) (hstop : k < done.returnStop) : Touches .ret items k := by
  obtain ⟨a, b, rest, rfl, -⟩ := exists_two (n := 0) hsupplied.operands
  have hfits := (hsupplied.covered ⟨a, b⟩ (List.mem_singleton_self _)).fits
  simp only [perform, takeThen, ret_eq hfits, Option.some.injEq, Prod.mk.injEq] at h
  obtain ⟨-, rfl, -⟩ := h
  rw [touches_single rfl]
  by_cases hempty : b = 0
  · simp only [returning, if_pos hempty, Machine.setReturn] at hstop
    exact absurd hstop (Nat.not_lt_zero k)
  · simp only [returning, if_neg hempty, Machine.setReturn] at hstart hstop
    exact ⟨hstart, hstop⟩

lemma isJump_eq_false {i : Instruction} (h : (Operation.standard i).footprint ≠ none) :
    isJump i = false := by
  cases i with
  | jump | jumpIf => exact absurd rfl h
  | _ => rfl

/-- An instruction that is supplied with its windows stays inside them. -/
theorem stays_in_windows {i : Instruction} {m : Machine}
    (hvalid : (Operation.standard i).valid = true) (hdup : i ≠ .dup 0)
    (hfootprint : (Operation.standard i).footprint ≠ none) (hsupplied : Supplied i m) :
    StaysIn (Touches i m.stack.items) runner i context ex m where
  confined := perform_items_confined m.stack.items hfootprint hsupplied
  returns := by
    rintro rfl control done after h
    exact ret_returns m.stack.items hsupplied h
  faultless := by
    intro f done after h
    cases perform_declared hvalid hdup hsupplied h with
    | astray hjump =>
      rw [standard_behaviour, isJump_eq_false hfootprint] at hjump
      cases hjump

/-- Whether an operation changes the world can be told from the operands that it takes. -/
lemma refusesWrite_ok (ex : Executor) {op : Opcode} {i : Instruction} {stack : Stack}
    (hop : op.instruction? = some i) (hoperands : (Operation.standard i).pop ≤ stack.height) :
    ∃ refuses, ex.refusesWrite op (.standard i) stack = .ok refuses := by
  unfold Executor.refusesWrite Operation.changesWorld
  by_cases hcall : op = .call
  · subst hcall
    cases hop
    obtain ⟨a, b, c, rest, hitems, -⟩ := exists_three (n := 4) hoperands
    have hvalue : stack.peek 2 = .ok c := by
      simp only [Stack.peek, hitems, List.getElem?_cons_succ, List.getElem?_cons_zero]
    rw [hvalue]
    by_cases hreadOnly : ex.frame.readOnly = true
    · rw [if_pos hreadOnly]
      exact ⟨_, rfl⟩
    · rw [if_neg hreadOnly]
      exact ⟨_, rfl⟩
  · simp only [if_neg hcall]
    repeat' split
    all_goals exact ⟨_, rfl⟩

lemma step_refused {op : Opcode} {m : Machine} {f : Fault} (hop : m.opcode? = some op)
    (hvet : ex.vet op (ex.instructions.get op) m.stack = .error f) :
    step runner context m ex = some (.exit (.fault f) m ex) := by
  simp only [step, Executor.admit, hop, hvet]

/-- A window that ends past the quantities is refused, if the write is not. -/
lemma vet_overflow (ex : Executor) {op : Opcode} {i : Instruction} {stack : Stack}
    (hop : op.instruction? = some i) (hvalid : (Operation.standard i).valid = true)
    (hcheck : (Operation.standard i).checkStack stack = .ok ())
    (hneed : memoryNeed (.standard i) stack = .error .gasUintOverflow) :
    ∃ refuses, ex.refusesWrite op (.standard i) stack = .ok refuses ∧
      ex.vet op (.standard i) stack =
        .error (if refuses then .writeProtection else .gasUintOverflow) := by
  obtain ⟨refuses, hrefuses⟩ := refusesWrite_ok ex hop (check_ok hcheck).1
  refine ⟨refuses, hrefuses, ?_⟩
  have hvetting := vet_vetting ex op (.standard i) stack
  generalize hresult : ex.vet op (.standard i) stack = result at hvetting
  cases hvetting with
  | undefined hinvalid => simp [hvalid] at hinvalid
  | unfit hvalid hunfit => simp [hcheck] at hunfit
  | unreadable hvalid hcheck hunreadable => simp [hrefuses] at hunreadable
  | readOnly hvalid hcheck hwrites =>
    rw [hrefuses] at hwrites
    cases hwrites
    rfl
  | measured hvalid hcheck hreads =>
    rw [hrefuses] at hreads
    cases hreads
    exact hneed

/-- Only the operations that belong to a standard set declare memory. -/
lemma valid_of_footprint {s : InstructionSet} (hs : IsStandard s) {op : Opcode}
    {footprint : Footprint} (hfootprint : (s.get op).footprint = some footprint) :
    (s.get op).valid = true := by
  have hstandard {i : Instruction} (h : (Operation.standard i).footprint = some footprint) :
      (Operation.standard i).valid = true := by
    cases i with
    | call scheme => cases scheme <;> rfl
    | invalid => cases h
    | _ => rfl
  have hfrontier (h : (InstructionSet.frontier.get op).footprint = some footprint) :
      (InstructionSet.frontier.get op).valid = true := by
    simp only [InstructionSet.frontier, get_ofFn] at h ⊢
    split at h
    · cases h
    · cases h
    · exact hstandard h
  obtain rfl | rfl := hs
  · exact hfrontier hfootprint
  · rw [InstructionSet.homestead, get_replace] at hfootprint ⊢
    by_cases hop : Opcode.delegateCall = op
    · rw [if_pos hop]
      rfl
    · rw [if_neg hop] at hfootprint ⊢
      exact hfrontier hfootprint

/-- The memory that operations declare covers what their instructions access. Where an operation
needs no memory, none is accessed. Where it needs some and the memory has grown to it, all that is
read and written lies inside the memory, and nothing is at fault. Where a window that is not empty
ends past the quantities, the step is refused before anything is charged. -/
theorem declared_memory_covers_accesses {s : InstructionSet} (hs : IsStandard s) {op : Opcode}
    {footprint : Footprint} (hfootprint : (s.get op).footprint = some footprint) {m : Machine}
    (hcheck : (s.get op).checkStack m.stack = .ok ())
    (runner : Runner) (context : Context) (ex : Executor) :
    (footprint.stop m.stack = .ok none →
      StaysIn (fun _ => False) runner (s.get op).behaviour context ex m) ∧
    (∀ stop memoryEnd grown, footprint.stop m.stack = .ok (some stop) →
      Footprint.align (some stop) = .ok memoryEnd →
      Machine.grow memoryEnd m = (.ok (), grown) →
      (∀ k, Touches (s.get op).behaviour m.stack.items k → k < grown.memory.size) ∧
        StaysIn (Touches (s.get op).behaviour m.stack.items) runner (s.get op).behaviour
          context ex grown) ∧
    (∀ w ∈ windows (s.get op).behaviour m.stack.items, w.length ≠ 0 →
      Quantity.limit ≤ Quantity.wordAlign (w.offset.toNat + w.length.toNat) →
      ex.instructions = s → m.opcode? = some op →
      ∃ refuses, ex.refusesWrite op (s.get op) m.stack = .ok refuses ∧
        step runner context m ex = some (.exit
          (.fault (if refuses then .writeProtection else .gasUintOverflow)) m ex)) := by
  have hvalid := valid_of_footprint hs hfootprint
  obtain ⟨i, hop, hget⟩ := standard_get hs hvalid
  rw [hget] at hvalid hfootprint hcheck
  simp only [hget, standard_behaviour]
  have hdup := instruction_ne_dup_zero hop
  have hsome : (Operation.standard i).footprint ≠ none := by
    rw [hfootprint]
    exact Option.some_ne_none footprint
  have hneed {stop : Option Nat} (hstop : footprint.stop m.stack = .ok stop) :
      memoryNeed (.standard i) m.stack = Footprint.align stop := by
    simp only [memoryNeed, hfootprint, stop_footprint, hstop]
    rfl
  refine ⟨?_, ?_, ?_⟩
  · intro hstop
    have hsupplied := supplied_of_grown hcheck (hneed hstop) (m := m) rfl
    have hnone : Touches i m.stack.items = fun _ => False := by
      funext k
      apply eq_false
      rintro ⟨w, hw, hhas⟩
      have hinside := windows_inside (check_ok hcheck).1 (hneed hstop) w hw
      exact absurd (hinside.lt hhas) (Nat.not_lt_zero k)
    rw [← hnone]
    exact stays_in_windows hvalid hdup hsome hsupplied
  · intro stop memoryEnd grown hstop halign hgrow
    have hsupplied := supplied_of_grown hcheck ((hneed hstop).trans halign) hgrow
    rw [← grow_stack hgrow]
    exact ⟨touches_lt hsupplied, stays_in_windows hvalid hdup hsome hsupplied⟩
  · intro w hw hlength hend hinstructions hopcode
    obtain ⟨refuses, hrefuses, hvet⟩ := vet_overflow ex hop hvalid hcheck
      (memoryNeed_overflow (check_ok hcheck).1 hw hlength hend)
    refine ⟨refuses, hrefuses, step_refused hopcode ?_⟩
    rw [hinstructions, hget]
    exact hvet

/-- A frame about to make a call whose input is empty but starts far away, and whose output goes
into the second and the third word of the memory. -/
def distantConfiguration : Configuration where
  context := ⟨0xa, 0xc, 0⟩
  machine := { Machine.start #[0xf1] #[] 1024 4096 with
    stack := ⟨[0, 0xb, 0, 0x10000000000000000, 0, 33, 32], 1024⟩ }
  executor := (Executor.new (.ofAccounts ∅) .frontier .zero).reset 0xc 90000

theorem declared_memory_covers_accesses_distantConfiguration :
    ∃ grown, Machine.grow (some 96) distantConfiguration.machine = (.ok (), grown) ∧
      Touches (.call .call) distantConfiguration.machine.stack.items 64 ∧
      64 < grown.memory.size ∧
      StaysIn (Touches (.call .call) distantConfiguration.machine.stack.items) (run 9)
        (.call .call) distantConfiguration.context distantConfiguration.executor grown := by
  have hget : InstructionSet.frontier.get .call = .standard (.call .call) := by decide +kernel
  have hfootprint : (InstructionSet.frontier.get .call).footprint = some (.regions 3 4 5 6) := by
    rw [hget]
    rfl
  have hcheck : (InstructionSet.frontier.get .call).checkStack
      distantConfiguration.machine.stack = .ok () := by
    rw [hget]
    rfl
  obtain ⟨-, hcovers, -⟩ := declared_memory_covers_accesses (.inl rfl) hfootprint hcheck (run 9)
    distantConfiguration.context distantConfiguration.executor
  obtain ⟨hinside, hstays⟩ := hcovers 65 (some 96) _ rfl rfl rfl
  rw [hget] at hinside hstays
  have htouches : Touches (.call .call) distantConfiguration.machine.stack.items 64 :=
    ⟨⟨33, 32⟩, List.mem_cons_of_mem _ List.mem_cons_self, by decide, by decide⟩
  exact ⟨_, rfl, htouches, hinside 64 htouches, hstays⟩

end ContractMachine.Proofs
