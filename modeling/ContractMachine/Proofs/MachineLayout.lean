import ContractMachine.Proofs.FrameFaults

/-!
# What instructions leave of the machine

No instruction touches the code, the jump table or the size of the memory, and only the two jumps
touch the position. A step moves on by itself past all others.
-/

namespace ContractMachine.Proofs

variable {α β : Type}

/-- `m'` runs the code of `m` with as much memory. -/
structure SameLayout (m m' : Machine) : Prop where
  code : m'.code = m.code
  jumps : m'.jumps = m.jumps
  memorySize : m'.memory.size = m.memory.size

structure Steady (m m' : Machine) : Prop extends SameLayout m m' where
  position : m'.position = m.position

theorem SameLayout.trans {m mid m' : Machine} (h : SameLayout m mid) (h' : SameLayout mid m') :
    SameLayout m m' where
  code := h'.code.trans h.code
  jumps := h'.jumps.trans h.jumps
  memorySize := h'.memorySize.trans h.memorySize

theorem Steady.refl (m : Machine) : Steady m m := ⟨⟨rfl, rfl, rfl⟩, rfl⟩

theorem Steady.trans {m mid m' : Machine} (h : Steady m mid) (h' : Steady mid m') : Steady m m' :=
  ⟨h.toSameLayout.trans h'.toSameLayout, h'.position.trans h.position⟩

/-- The action keeps to the relation, also where it faults. -/
def Respects (R : Machine → Machine → Prop) (x : Action Machine α) : Prop := ∀ m, R m (x m).2

lemma Respects.bind {R : Machine → Machine → Prop}
    (htrans : ∀ m mid m', R m mid → R mid m' → R m m') {x : Action Machine α}
    {k : α → Action Machine β} (hx : Respects R x) (hk : ∀ a, Respects R (k a)) :
    Respects R (x >>= k) := by
  intro m
  have hfirst := hx m
  rw [Action.bind_apply]
  cases hm : x m with
  | mk result mid =>
    rw [hm] at hfirst
    cases result with
    | error f => exact hfirst
    | ok a => exact htrans _ _ _ hfirst (hk a mid)

lemma Respects.ite {R : Machine → Machine → Prop} {c : Prop} [Decidable c] {x y : Action Machine α}
    (hx : Respects R x) (hy : Respects R y) : Respects R (if c then x else y) := by
  by_cases hc : c
  · rw [if_pos hc]
    exact hx
  · rw [if_neg hc]
    exact hy

/-- The action stays at its position and leaves the layout as it is. -/
def Steadies (x : Action Machine α) : Prop := Respects Steady x

lemma Steadies.bind {x : Action Machine α} {k : α → Action Machine β} (hx : Steadies x)
    (hk : ∀ a, Steadies (k a)) : Steadies (x >>= k) := 
  Respects.bind (R := Steady) (fun _ _ _ => Steady.trans) hx hk

lemma steadies_pure (a : α) : Steadies (pure a) := fun m => .refl m

lemma steadies_fault (f : Fault) : Steadies (Action.fault f : Action Machine α) := fun m => .refl m

lemma steadies_read (f : Machine → α) : Steadies (Action.read f) := fun m => .refl m

lemma steadies_query (f : Machine → Except Fault α) : Steadies (Action.query f) := fun m => .refl m

lemma steadies_onStack (x : Action Stack α) : Steadies (Machine.onStack x) :=
  fun _ => ⟨⟨rfl, rfl, rfl⟩, rfl⟩

lemma steadies_pop : Steadies Machine.pop := steadies_onStack _

lemma steadies_push (w : Word) : Steadies (Machine.push w) := steadies_onStack _

lemma steadies_setReturn (start stop : Nat) :
    Steadies (Action.modify (Machine.setReturn start stop)) :=
  fun _ => ⟨⟨rfl, rfl, rfl⟩, rfl⟩

lemma steadies_quantity (w : Word) (f : Fault) : Steadies (Machine.quantity w f) := by
  unfold Machine.quantity
  cases w.toQuantity? with
  | none => exact steadies_fault f
  | some q => exact steadies_pure q

lemma steadies_region (offset length : Word) : Steadies (Machine.region offset length) :=
  Respects.ite (steadies_pure _) ((steadies_quantity offset _).bind fun _ =>
    (steadies_quantity length _).bind fun _ => steadies_read _)

lemma size_overwrite (source : Nat → UInt8) (start count : Nat) (data : Bytes) :
    (Memory.overwrite source start count data).size = data.size := by
  induction count generalizing data with
  | zero => rfl
  | succ count ih => rw [Memory.overwrite, ih, Array.size_setIfInBounds]

lemma size_fill (offset count : Nat) (source : Nat → UInt8) (m : Memory) :
    (Memory.fill offset count source m).2.size = m.size := by
  unfold Memory.fill
  by_cases hnone : count = 0
  · rw [if_pos hnone]
  · rw [if_neg hnone]
    by_cases hpast : m.data.size < offset + count
    · rw [if_pos hpast]
    · rw [if_neg hpast]
      exact size_overwrite source offset count m.data

lemma size_copy (offset sourceOffset length : Word) (source : Bytes) (m : Memory) :
    (Memory.copy offset sourceOffset length source m).2.size = m.size := by
  unfold Memory.copy
  by_cases hnone : length = 0
  · rw [if_pos hnone]
  · rw [if_neg hnone]
    cases offset.toQuantity? with
    | none => rfl
    | some start =>
      cases length.toQuantity? with
      | none => rfl
      | some count => exact size_fill start count _ m

lemma steadies_onMemory {x : Action Memory α} (hx : ∀ m, (x m).2.size = m.size) :
    Steadies (Machine.onMemory x) :=
  fun m => ⟨⟨rfl, rfl, hx m.memory⟩, rfl⟩

lemma steadies_fill (offset count : Nat) (source : Nat → UInt8) :
    Steadies (Machine.onMemory (Memory.fill offset count source)) :=
  steadies_onMemory (size_fill offset count source)

lemma steadies_sha3 : Steadies Machine.sha3 :=
  steadies_pop.bind fun offset => steadies_pop.bind fun length =>
    (steadies_region offset length).bind fun _ => steadies_push _

lemma steadies_lookup (f : Word → Word) : Steadies (Machine.lookup f) :=
  steadies_pop.bind fun _ => steadies_push _

lemma steadies_callDataLoad : Steadies Machine.callDataLoad :=
  steadies_pop.bind fun _ => (steadies_read _).bind fun _ => steadies_push _

lemma steadies_copy (source : Machine → Bytes) : Steadies (Machine.copy source) :=
  steadies_pop.bind fun _ => steadies_pop.bind fun _ => steadies_pop.bind fun _ =>
    (steadies_read source).bind fun _ => steadies_onMemory (size_copy _ _ _ _)

lemma steadies_mload : Steadies Machine.mload :=
  steadies_pop.bind fun index => (steadies_quantity index _).bind fun _ =>
    (steadies_read _).bind fun _ => steadies_push _

lemma steadies_mstore : Steadies Machine.mstore :=
  steadies_pop.bind fun index => steadies_pop.bind fun _ =>
    (steadies_quantity index _).bind fun _ => steadies_fill _ _ _

lemma steadies_mstore8 : Steadies Machine.mstore8 :=
  steadies_pop.bind fun index => steadies_pop.bind fun _ =>
    (steadies_quantity index _).bind fun _ => steadies_fill _ _ _

lemma steadies_swap (n : Nat) : Steadies (Machine.swap n) :=
  (steadies_query _).bind fun _ => (steadies_query _).bind fun _ =>
    (steadies_onStack _).bind fun _ => steadies_onStack _

lemma steadies_ret : Steadies Machine.ret :=
  steadies_pop.bind fun offset => steadies_pop.bind fun length =>
    Respects.ite (steadies_setReturn 0 0) ((steadies_quantity offset _).bind fun start =>
      (steadies_quantity length _).bind fun count => steadies_setReturn start (start + count))

lemma steadies_takeStore : Steadies Machine.takeStore :=
  steadies_pop.bind fun _ => steadies_pop.bind fun _ => steadies_pure _

lemma steadies_takeItems (n : Nat) : Steadies (Machine.takeItems n) := by
  induction n with
  | zero => exact steadies_pure []
  | succ n ih => exact steadies_pop.bind fun _ => ih.bind fun _ => steadies_pure _

lemma steadies_takeLog (topics : Nat) : Steadies (Machine.takeLog topics) :=
  steadies_pop.bind fun offset => steadies_pop.bind fun length =>
    (steadies_region offset length).bind fun _ => (steadies_takeItems topics).bind fun _ =>
      steadies_pure _

lemma steadies_takeCreation : Steadies Machine.takeCreation :=
  steadies_pop.bind fun _ => steadies_pop.bind fun offset => steadies_pop.bind fun length =>
    (steadies_region offset length).bind fun _ => steadies_pure _

lemma steadies_takeCallValue (scheme : CallScheme) : Steadies (Machine.takeCallValue scheme) := by
  cases scheme with
  | delegateCall => exact steadies_pure 0
  | call | callCode => exact steadies_pop

lemma steadies_takeCall (scheme : CallScheme) : Steadies (Machine.takeCall scheme) :=
  steadies_pop.bind fun _ => steadies_pop.bind fun _ =>
    (steadies_takeCallValue scheme).bind fun _ => steadies_pop.bind fun inOffset =>
      steadies_pop.bind fun inLength => steadies_pop.bind fun _ => steadies_pop.bind fun _ =>
        (steadies_region inOffset inLength).bind fun _ => steadies_pure _

lemma steadies_finishCall (request : Machine.CallRequest) (exit : Exit) (output : Bytes) :
    Steadies (Machine.finishCall request exit output) := by
  have hput : Steadies (Machine.putOutput request output) :=
    Respects.ite (steadies_pure ()) ((steadies_quantity request.outOffset _).bind fun _ =>
      (steadies_quantity request.outLength _).bind fun _ => steadies_fill _ _ _)
  exact Respects.ite (hput.bind fun _ => steadies_push 1) (steadies_push 0)

lemma steadies_finishCreation (exit : Exit) (created : Option Address) :
    Steadies (Machine.finishCreation exit created) :=
  Respects.ite (steadies_push _) (steadies_push 0)

/-- Whether the instruction sets the position itself. -/
def isJump : Instruction → Bool
  | .jump | .jumpIf => true
  | _ => false

lemma proceed_machine {x : Action Machine Unit} {m m' : Machine} {ex ex' : Executor}
    {control : Control} (h : some (proceed x m ex) = some (control, m', ex')) : m' = (x m).2 := by
  unfold proceed at h
  cases hx : x m with
  | mk result taken => cases result <;> simp_all

lemma proceed_steady {x : Action Machine Unit} (hx : Steadies x) {m m' : Machine}
    {ex ex' : Executor} {control : Control}
    (h : some (proceed x m ex) = some (control, m', ex')) : Steady m m' := by
  rw [proceed_machine h]
  exact hx m

lemma performLoad_steady {context : Context} {m m' : Machine} {ex ex' : Executor}
    {control : Control} (h : performLoad context m ex = (control, m', ex')) : Steady m m' := by
  unfold performLoad at h
  have hpop := steadies_pop m
  cases hp : Machine.pop m with
  | mk result popped =>
    rw [hp] at hpop
    cases result with
    | error f =>
      simp only [hp, Prod.mk.injEq] at h
      rw [← h.2.1]
      exact hpop
    | ok slot =>
      have hpush := steadies_push (ex.world.storage context.address slot) popped
      cases hq : Machine.push (ex.world.storage context.address slot) popped with
      | mk result pushed =>
        rw [hq] at hpush
        have hboth := hpop.trans hpush
        cases result with
        | error f | ok u =>
          simp only [hp, hq, Prod.mk.injEq] at h
          rw [← h.2.1]
          exact hboth

/-- Whatever frames an instruction enters, it stays where it is unless it is a jump. -/
theorem perform_steady {runner : Runner} {i : Instruction} {context : Context} {m m' : Machine}
    {ex ex' : Executor} {control : Control} (hi : isJump i = false)
    (h : perform runner i context m ex = some (control, m', ex')) : Steady m m' := by
  have htaken {α : Type} {x : Action Machine α}
      {k : α → Machine → Executor → Option (Control × Machine × Executor)} (hx : Steadies x)
      (hk : ∀ a taken, k a taken ex = some (control, m', ex') → Steady taken m')
      (h : takeThen x m ex k = some (control, m', ex')) : Steady m m' := by
    have hsteady := hx m
    obtain ⟨f, hfault, -, -⟩ | ⟨a, taken, htake, hthen⟩ := takeThen_cases h
    · rw [hfault] at hsteady
      exact hsteady
    · rw [htake] at hsteady
      exact hsteady.trans (hk a taken hthen)
  have hsame {c : Control} {m₀ : Machine} {ex₀ : Executor}
      (h : some (c, m₀, ex₀) = some (control, m', ex')) : Steady m₀ m' := by
    simp only [Option.some.injEq, Prod.mk.injEq] at h
    rw [h.2.1]
    exact .refl m'
  cases i with
  | stop | jumpDest => exact hsame h
  | unary op => exact proceed_steady (steadies_pop.bind fun _ => steadies_push _) h
  | binary op =>
    exact proceed_steady (steadies_pop.bind fun _ => steadies_pop.bind fun _ => steadies_push _) h
  | ternary op =>
    exact proceed_steady (steadies_pop.bind fun _ => steadies_pop.bind fun _ =>
      steadies_pop.bind fun _ => steadies_push _) h
  | sha3 => exact proceed_steady steadies_sha3 h
  | reading value => exact proceed_steady (steadies_push _) h
  | balance | extCodeSize | blockHash => exact proceed_steady (steadies_lookup _) h
  | callDataLoad => exact proceed_steady steadies_callDataLoad h
  | callDataCopy | codeCopy => exact proceed_steady (steadies_copy _) h
  | extCodeCopy => exact proceed_steady (steadies_pop.bind fun _ => steadies_copy _) h
  | pop => exact proceed_steady (steadies_pop.bind fun _ => steadies_pure ()) h
  | mload => exact proceed_steady steadies_mload h
  | mstore => exact proceed_steady steadies_mstore h
  | mstore8 => exact proceed_steady steadies_mstore8 h
  | sload =>
    simp only [perform, Option.some.injEq] at h
    exact performLoad_steady h
  | sstore =>
    simp only [perform] at h
    exact htaken steadies_takeStore (fun _ _ hthen => hsame hthen) h
  | jump | jumpIf => cases hi
  | push width =>
    exact proceed_steady ((steadies_read _).bind fun _ => steadies_push _) h
  | dup n => exact proceed_steady ((steadies_query _).bind fun _ => steadies_push _) h
  | swap n => exact proceed_steady (steadies_swap n) h
  | log topics =>
    simp only [perform] at h
    exact htaken (steadies_takeLog topics) (fun _ _ hthen => hsame hthen) h
  | create =>
    simp only [perform] at h
    refine htaken steadies_takeCreation ?_ h
    intro operands taken hthen
    split at hthen
    · cases hthen
    · exact proceed_steady (steadies_finishCreation _ _) hthen
  | call scheme =>
    simp only [perform] at h
    refine htaken (steadies_takeCall scheme) ?_ h
    intro request taken hthen
    split at hthen
    · cases hthen
    · exact proceed_steady (steadies_finishCall _ _ _) hthen
  | ret =>
    simp only [perform] at h
    exact htaken steadies_ret (fun _ _ hthen => hsame hthen) h
  | selfDestruct =>
    simp only [perform] at h
    refine htaken steadies_pop ?_ h
    intro target taken hthen
    split at hthen <;> exact hsame hthen
  | invalid =>
    simp only [perform] at h
    split at h <;> exact hsame h

/-- A jump goes to a destination that the table marks, and faults for every other word. -/
lemma jumpTo_cases (destination : Word) (m : Machine) :
    (destination.toNat < Quantity.limit ∧ m.jumps.isValid destination.toNat = true ∧
      Machine.jumpTo destination m = (.ok (), m.moveTo destination.toNat)) ∨
    (¬(destination.toNat < Quantity.limit ∧ m.jumps.isValid destination.toNat = true) ∧
      Machine.jumpTo destination m = (.error .invalidJump, m)) := by
  unfold Machine.jumpTo Machine.quantity Word.toQuantity?
  by_cases hfits : destination.toNat < Quantity.limit
  · by_cases hvalid : m.jumps.isValid destination.toNat = true
    · left
      simp [Action.bind_apply, Action.read, Action.modify, hfits, hvalid]
    · right
      simp [Action.bind_apply, Action.read, Action.fault, hfits, hvalid]
  · right
    simp [Action.bind_apply, Action.fault, hfits]

lemma jumpTo_layout (destination : Word) : Respects SameLayout (Machine.jumpTo destination) := by
  intro m
  obtain ⟨-, -, h⟩ | ⟨-, h⟩ := jumpTo_cases destination m <;> rw [h] <;> exact ⟨rfl, rfl, rfl⟩

lemma Steadies.layout {x : Action Machine α} (hx : Steadies x) : Respects SameLayout x :=
  fun m => (hx m).toSameLayout

theorem perform_layout {runner : Runner} {i : Instruction} {context : Context} {m m' : Machine}
    {ex ex' : Executor} {control : Control}
    (h : perform runner i context m ex = some (control, m', ex')) : SameLayout m m' := by
  cases hi : isJump i with
  | false => exact (perform_steady hi h).toSameLayout
  | true =>
    have hadvance : Respects SameLayout (Action.modify (Machine.advance 1)) :=
      fun _ => ⟨rfl, rfl, rfl⟩
    have hpop : Respects SameLayout Machine.pop := steadies_pop.layout
    have hbind {α β : Type} {x : Action Machine α} {k : α → Action Machine β}
        (hx : Respects SameLayout x) (hk : ∀ a, Respects SameLayout (k a)) :
        Respects SameLayout (x >>= k) :=
      Respects.bind (R := SameLayout) (fun _ _ _ => SameLayout.trans) hx hk
    cases i with
    | jump =>
      rw [proceed_machine h]
      exact hbind hpop jumpTo_layout m
    | jumpIf =>
      rw [proceed_machine h]
      exact hbind hpop (fun destination => hbind hpop fun condition =>
        .ite hadvance (jumpTo_layout destination)) m
    | _ => cases hi

end ContractMachine.Proofs
