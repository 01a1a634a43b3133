import ContractMachine.Proofs.InstructionStarts

/-!
# Zeros after the code

A code is read as if zeros followed it, and zeros that do follow it are no jump destinations. So
instructions do not tell a machine from the one whose code has some zeros more at its end, but for
the instruction that reads the size of the code.
-/

namespace ContractMachine.Proofs

variable {α β : Type} {count : Nat}

def padded (count : Nat) (m : Machine) : Machine :=
  { m with
    code := m.code ++ Array.replicate count 0
    jumps := ⟨m.jumps.marks ++ Array.replicate count false⟩ }

/-- What stands for a missing entry may as well follow the entries. -/
lemma getD_padded (entries : Array α) (count : Nat) (blank : α) (i : Nat) :
    (entries ++ Array.replicate count blank).getD i blank = entries.getD i blank := by
  simp only [Array.getD_eq_getD_getElem?]
  by_cases hi : i < entries.size
  · rw [Array.getElem?_append_left hi]
  · rw [Array.getElem?_append_right (Nat.le_of_not_lt hi),
      Array.getElem?_eq_none (Nat.le_of_not_lt hi), Array.getElem?_replicate]
    split <;> rfl

lemma at0_padded (code : Bytes) (count i : Nat) :
    (code ++ Array.replicate count 0 : Bytes).at0 i = code.at0 i := getD_padded code count 0 i

/-- A byte other than zero is one of the code. -/
lemma getElem?_padded {code : Bytes} {i : Nat} {byte : UInt8} (hbyte : byte ≠ 0) :
    (code ++ Array.replicate count 0)[i]? = some byte ↔ code[i]? = some byte := by
  by_cases hi : i < code.size
  · rw [Array.getElem?_append_left hi]
  · rw [Array.getElem?_append_right (Nat.le_of_not_lt hi),
      Array.getElem?_eq_none (Nat.le_of_not_lt hi), Array.getElem?_replicate]
    split
    · simp only [Option.some.injEq, reduceCtorEq, iff_false]
      exact fun hzero => hbyte hzero.symm
    · rfl

lemma followedBy_padded {code : Bytes} {q r : Nat} (hq : q < code.size) :
    FollowedBy (code ++ Array.replicate count 0) q r ↔ FollowedBy code q r := by
  simp only [FollowedBy, Array.getElem?_append_left hq]

/-- Up to the end of the code the decoding is the same. -/
lemma instructionStart_padded {code : Bytes} {p : Nat} (hp : p < code.size) :
    InstructionStart (code ++ Array.replicate count 0) p ↔ InstructionStart code p := by
  constructor
  · intro h
    unfold InstructionStart at h
    induction h with
    | refl => exact .refl
    | @tail q r hstart hfollowed ih =>
      -- Instructions go forward, so all that come before a place of the code are in it.
      have hq : q < code.size := by
        obtain ⟨op, -, hr⟩ := hfollowed
        omega
      exact .tail (ih hq) ((followedBy_padded hq).mp hfollowed)
  · refine Relation.ReflTransGen.mono ?_ _ _
    intro q r hfollowed
    obtain ⟨op, hop, hr⟩ := hfollowed
    exact (followedBy_padded (Array.getElem?_eq_some_iff.mp hop).1).mpr ⟨op, hop, hr⟩

lemma isDestination_padded (code : Bytes) (count p : Nat) :
    IsDestination (code ++ Array.replicate count 0) p ↔ IsDestination code p := by
  unfold IsDestination
  rw [getElem?_padded (by decide)]
  -- The byte of a destination is not zero, so that it lies inside the code.
  refine and_congr_right ?_
  intro hbyte
  exact instructionStart_padded (Array.getElem?_eq_some_iff.mp hbyte).1

lemma scan_size (code : Bytes) (i : Nat) (marks : Array Bool) :
    (JumpTable.scan code i marks).size = marks.size := by
  fun_induction JumpTable.scan code i marks with
  | case1 i marks hi op marks' ih =>
    rw [ih]
    show (if op = Opcode.jumpDest then marks.setIfInBounds i true else marks).size = marks.size
    split
    · exact Array.size_setIfInBounds
    · rfl
  | case2 i marks hi => rfl

lemma isValid_marks (marks : Array Bool) (count p : Nat) :
    (⟨marks ++ Array.replicate count false⟩ : JumpTable).isValid p =
      (⟨marks⟩ : JumpTable).isValid p := getD_padded marks count false p

lemma ofCode_size (code : Bytes) : (JumpTable.ofCode code).marks.size = code.size := by
  rw [JumpTable.ofCode, scan_size, Array.size_replicate]

/-- Zeros after the code add no destination. -/
theorem ofCode_padded (code : Bytes) (count : Nat) :
    JumpTable.ofCode (code ++ Array.replicate count 0) =
      ⟨(JumpTable.ofCode code).marks ++ Array.replicate count false⟩ := by
  have hvalid (p : Nat) : (JumpTable.ofCode (code ++ Array.replicate count 0)).isValid p =
      (⟨(JumpTable.ofCode code).marks ++ Array.replicate count false⟩ : JumpTable).isValid p := by
    rw [isValid_marks, Bool.eq_iff_iff, isValid_ofCode, isDestination_padded, ← isValid_ofCode]
  have hsize : (JumpTable.ofCode (code ++ Array.replicate count 0)).marks.size =
      ((JumpTable.ofCode code).marks ++ Array.replicate count false).size := by
    rw [ofCode_size, Array.size_append, Array.size_append, ofCode_size, Array.size_replicate,
      Array.size_replicate]
  generalize JumpTable.ofCode (code ++ Array.replicate count 0) = table at hvalid hsize ⊢
  obtain ⟨marks⟩ := table
  congr 1
  refine Array.ext hsize ?_
  intro p hp hp'
  have hmark := hvalid p
  simp only [JumpTable.isValid, Array.getD, dif_pos hp, dif_pos hp'] at hmark
  exact hmark

lemma padded_start (count : Nat) (code input : Bytes) (stackLimit memoryLimit : Nat) :
    padded count (.start code input stackLimit memoryLimit) =
      .start (code ++ Array.replicate count 0) input stackLimit memoryLimit := by
  simp only [padded, Machine.start, ofCode_padded]

lemma padded_opcode {m : Machine} {op : Opcode} (hop : m.opcode? = some op) :
    (padded count m).opcode? = some op := by
  obtain ⟨byte, hbyte, rfl⟩ := Option.map_eq_some_iff.mp hop
  have hposition := (Array.getElem?_eq_some_iff.mp hbyte).1
  rw [Machine.opcode?, padded, Array.getElem?_append_left hposition, hbyte, Option.map_some]

lemma padded_opcode_none (count : Nat) {m : Machine} (hop : m.opcode? = none) :
    (padded count m).opcode? = none ∨ (padded count m).opcode? = some ⟨0⟩ := by
  have hposition := Array.getElem?_eq_none_iff.mp (Option.map_eq_none_iff.mp hop)
  rw [Machine.opcode?, padded, Array.getElem?_append_right hposition, Array.getElem?_replicate]
  split
  · exact .inr rfl
  · exact .inl rfl

/-- The action does the same with zeros after the code. -/
def IgnoresPadding (count : Nat) (x : Action Machine α) : Prop :=
  ∀ m, x (padded count m) = ((x m).1, padded count (x m).2)

lemma IgnoresPadding.bind {x : Action Machine α} {k : α → Action Machine β}
    (hx : IgnoresPadding count x) (hk : ∀ a, IgnoresPadding count (k a)) :
    IgnoresPadding count (x >>= k) := by
  intro m
  have hfirst := hx m
  rw [Action.bind_apply, Action.bind_apply, hfirst]
  cases hm : x m with
  | mk result taken =>
    cases result with
    | error f => rfl
    | ok a => exact hk a taken

lemma IgnoresPadding.ite {c : Prop} [Decidable c] {x y : Action Machine α}
    (hx : IgnoresPadding count x) (hy : IgnoresPadding count y) :
    IgnoresPadding count (if c then x else y) := by
  by_cases hc : c
  · rw [if_pos hc]
    exact hx
  · rw [if_neg hc]
    exact hy

lemma ignores_pure (a : α) : IgnoresPadding count (pure a) := fun _ => rfl

lemma ignores_fault (f : Fault) : IgnoresPadding count (Action.fault f : Action Machine α) :=
  fun _ => rfl

lemma ignores_read {f : Machine → α} (hf : ∀ m, f (padded count m) = f m) :
    IgnoresPadding count (Action.read f) := by
  intro m
  simp only [Action.read, hf m]

lemma ignores_query {f : Machine → Except Fault α} (hf : ∀ m, f (padded count m) = f m) :
    IgnoresPadding count (Action.query f) := by
  intro m
  simp only [Action.query, hf m]

lemma ignores_modify {f : Machine → Machine} (hf : ∀ m, f (padded count m) = padded count (f m)) :
    IgnoresPadding count (Action.modify f) := by
  intro m
  simp only [Action.modify, hf m]

lemma ignores_onStack (x : Action Stack α) : IgnoresPadding count (Machine.onStack x) :=
  fun _ => rfl

lemma ignores_onMemory (x : Action Memory α) : IgnoresPadding count (Machine.onMemory x) :=
  fun _ => rfl

lemma ignores_pop : IgnoresPadding count Machine.pop := ignores_onStack _

lemma ignores_push (w : Word) : IgnoresPadding count (Machine.push w) := ignores_onStack _

lemma ignores_quantity (w : Word) (f : Fault) : IgnoresPadding count (Machine.quantity w f) := by
  unfold Machine.quantity
  cases w.toQuantity? with
  | none => exact ignores_fault f
  | some q => exact ignores_pure q

lemma ignores_region (offset length : Word) : IgnoresPadding count (Machine.region offset length) :=
  .ite (ignores_pure _) ((ignores_quantity offset _).bind fun _ =>
    (ignores_quantity length _).bind fun _ => ignores_read fun _ => rfl)

lemma ignores_sha3 : IgnoresPadding count Machine.sha3 :=
  ignores_pop.bind fun offset => ignores_pop.bind fun length =>
    (ignores_region offset length).bind fun _ => ignores_push _

lemma ignores_lookup (f : Word → Word) : IgnoresPadding count (Machine.lookup f) :=
  ignores_pop.bind fun _ => ignores_push _

lemma ignores_callDataLoad : IgnoresPadding count Machine.callDataLoad :=
  ignores_pop.bind fun _ => (ignores_read fun _ => rfl).bind fun _ => ignores_push _

lemma ignores_copy {source : Machine → Bytes} (hsource : ∀ m, source (padded count m) = source m) :
    IgnoresPadding count (Machine.copy source) :=
  ignores_pop.bind fun _ => ignores_pop.bind fun _ => ignores_pop.bind fun _ =>
    (ignores_read hsource).bind fun _ => ignores_onMemory _

/-- A copy of the code finds zeros past its end, whether or not they belong to it. -/
lemma ignores_codeCopy : IgnoresPadding count (Machine.copy Machine.code) := by
  refine ignores_pop.bind fun offset => ignores_pop.bind fun sourceOffset =>
    ignores_pop.bind fun length => ?_
  intro m
  have hcopy : Memory.copy offset sourceOffset length (padded count m).code =
      Memory.copy offset sourceOffset length m.code := by
    unfold Memory.copy
    simp only [padded, at0_padded]
    rfl
  simp only [Action.bind_apply, Action.read, hcopy]
  exact ignores_onMemory _ m

lemma ignores_mload : IgnoresPadding count Machine.mload :=
  ignores_pop.bind fun index => (ignores_quantity index _).bind fun _ =>
    (ignores_read fun _ => rfl).bind fun _ => ignores_push _

lemma ignores_mstore : IgnoresPadding count Machine.mstore :=
  ignores_pop.bind fun index => ignores_pop.bind fun _ =>
    (ignores_quantity index _).bind fun _ => ignores_onMemory _

lemma ignores_mstore8 : IgnoresPadding count Machine.mstore8 :=
  ignores_pop.bind fun index => ignores_pop.bind fun _ =>
    (ignores_quantity index _).bind fun _ => ignores_onMemory _

lemma ignores_jumpTo (destination : Word) : IgnoresPadding count (Machine.jumpTo destination) :=
  (ignores_quantity destination _).bind fun position =>
    (ignores_read fun m => isValid_marks m.jumps.marks count position).bind fun _ =>
      .ite (ignores_modify fun _ => rfl) (ignores_fault _)

lemma ignores_jumpIf : IgnoresPadding count Machine.jumpIf :=
  ignores_pop.bind fun destination => ignores_pop.bind fun _ =>
    .ite (ignores_modify fun _ => rfl) (ignores_jumpTo destination)

/-- Immediate data that the code cuts short is filled up with zeros. -/
lemma ignores_pushImmediate (width : Nat) : IgnoresPadding count (Machine.pushImmediate width) := by
  refine (ignores_read fun m => ?_).bind fun _ => ignores_push _
  simp only [padded, Bytes.window, at0_padded]

lemma ignores_dup (n : Nat) : IgnoresPadding count (Machine.dup n) :=
  (ignores_query fun _ => rfl).bind fun _ => ignores_push _

lemma ignores_swap (n : Nat) : IgnoresPadding count (Machine.swap n) :=
  (ignores_query fun _ => rfl).bind fun _ => (ignores_query fun _ => rfl).bind fun _ =>
    (ignores_onStack _).bind fun _ => ignores_onStack _

lemma ignores_ret : IgnoresPadding count Machine.ret :=
  ignores_pop.bind fun offset => ignores_pop.bind fun length =>
    .ite (ignores_modify fun _ => rfl) ((ignores_quantity offset _).bind fun _ =>
      (ignores_quantity length _).bind fun _ => ignores_modify fun _ => rfl)

lemma ignores_takeStore : IgnoresPadding count Machine.takeStore :=
  ignores_pop.bind fun _ => ignores_pop.bind fun _ => ignores_pure _

lemma ignores_takeItems (n : Nat) : IgnoresPadding count (Machine.takeItems n) := by
  induction n with
  | zero => exact ignores_pure []
  | succ n ih => exact ignores_pop.bind fun _ => ih.bind fun _ => ignores_pure _

lemma ignores_takeLog (topics : Nat) : IgnoresPadding count (Machine.takeLog topics) :=
  ignores_pop.bind fun offset => ignores_pop.bind fun length =>
    (ignores_region offset length).bind fun _ => (ignores_takeItems topics).bind fun _ =>
      ignores_pure _

lemma ignores_takeCreation : IgnoresPadding count Machine.takeCreation :=
  ignores_pop.bind fun _ => ignores_pop.bind fun offset => ignores_pop.bind fun length =>
    (ignores_region offset length).bind fun _ => ignores_pure _

lemma ignores_takeCallValue (scheme : CallScheme) :
    IgnoresPadding count (Machine.takeCallValue scheme) := by
  cases scheme with
  | delegateCall => exact ignores_pure 0
  | call | callCode => exact ignores_pop

lemma ignores_takeCall (scheme : CallScheme) : IgnoresPadding count (Machine.takeCall scheme) :=
  ignores_pop.bind fun _ => ignores_pop.bind fun _ =>
    (ignores_takeCallValue scheme).bind fun _ => ignores_pop.bind fun inOffset =>
      ignores_pop.bind fun inLength => ignores_pop.bind fun _ => ignores_pop.bind fun _ =>
        (ignores_region inOffset inLength).bind fun _ => ignores_pure _

lemma ignores_finishCall (request : Machine.CallRequest) (exit : Exit) (output : Bytes) :
    IgnoresPadding count (Machine.finishCall request exit output) := by
  have hput : IgnoresPadding count (Machine.putOutput request output) :=
    .ite (ignores_pure ()) ((ignores_quantity request.outOffset _).bind fun _ =>
      (ignores_quantity request.outLength _).bind fun _ => ignores_onMemory _)
  exact .ite (hput.bind fun _ => ignores_push 1) (ignores_push 0)

lemma ignores_finishCreation (exit : Exit) (created : Option Address) :
    IgnoresPadding count (Machine.finishCreation exit created) :=
  .ite (ignores_push _) (ignores_push 0)

def paddedControl (count : Nat) :
    Control × Machine × Executor → Control × Machine × Executor
  | (control, m, ex) => (control, padded count m, ex)

section Performing

variable {runner : Runner} {context : Context} {m : Machine} {ex : Executor}

lemma proceed_padded {x : Action Machine Unit} (hx : IgnoresPadding count x) (m : Machine)
    (ex : Executor) : proceed x (padded count m) ex = paddedControl count (proceed x m ex) := by
  unfold proceed
  rw [hx m]
  cases x m with
  | mk result taken => cases result <;> rfl

lemma takeThen_padded {x : Action Machine α}
    {k : α → Machine → Executor → Option (Control × Machine × Executor)}
    (hx : IgnoresPadding count x)
    (hk : ∀ a taken, k a (padded count taken) ex = (k a taken ex).map (paddedControl count)) :
    takeThen x (padded count m) ex k = (takeThen x m ex k).map (paddedControl count) := by
  unfold takeThen
  rw [hx m]
  cases x m with
  | mk result taken =>
    cases result with
    | error f => rfl
    | ok a => exact hk a taken

lemma performLoad_padded :
    performLoad context (padded count m) ex = paddedControl count (performLoad context m ex) := by
  unfold performLoad
  rw [ignores_pop m]
  cases Machine.pop m with
  | mk result popped =>
    cases result with
    | error f => rfl
    | ok slot =>
      simp only
      rw [ignores_push _ popped]
      cases Machine.push (ex.world.storage context.address slot) popped with
      | mk result pushed => cases result <;> rfl

lemma reading_padded {value : Reading} (h : value ≠ .codeSize) :
    value.value context (padded count m) ex = value.value context m ex := by
  cases value with
  | codeSize => exact absurd rfl h
  | _ => rfl

/-- But for the size of the code, instructions do the same with zeros after it. -/
theorem perform_padded {i : Instruction} (hsize : i ≠ .reading .codeSize) (hvalid : i ≠ .invalid)
    (runner : Runner) (context : Context) (m : Machine) (ex : Executor) :
    perform runner i context (padded count m) ex =
      (perform runner i context m ex).map (paddedControl count) := by
  have hproceed {x : Action Machine Unit} (hx : IgnoresPadding count x) (m : Machine)
      (ex : Executor) : some (proceed x (padded count m) ex) =
        (some (proceed x m ex)).map (paddedControl count) :=
    congrArg some (proceed_padded hx m ex)
  cases i with
  | stop | jumpDest => rfl
  | invalid => exact absurd rfl hvalid
  | unary op => exact hproceed (ignores_pop.bind fun _ => ignores_push _) m ex
  | binary op =>
    exact hproceed (ignores_pop.bind fun _ => ignores_pop.bind fun _ => ignores_push _) m ex
  | ternary op =>
    exact hproceed (ignores_pop.bind fun _ => ignores_pop.bind fun _ => ignores_pop.bind fun _ =>
      ignores_push _) m ex
  | sha3 => exact hproceed ignores_sha3 m ex
  | reading value =>
    have hvalue : value ≠ .codeSize := fun h => hsize (congrArg Instruction.reading h)
    simp only [perform, reading_padded hvalue]
    exact hproceed (ignores_push _) m ex
  | balance | extCodeSize | blockHash => exact hproceed (ignores_lookup _) m ex
  | callDataLoad => exact hproceed ignores_callDataLoad m ex
  | callDataCopy => exact hproceed (ignores_copy fun _ => rfl) m ex
  | codeCopy => exact hproceed ignores_codeCopy m ex
  | extCodeCopy =>
    exact hproceed (ignores_pop.bind fun _ => ignores_copy fun _ => rfl) m ex
  | pop => exact hproceed (ignores_pop.bind fun _ => ignores_pure ()) m ex
  | mload => exact hproceed ignores_mload m ex
  | mstore => exact hproceed ignores_mstore m ex
  | mstore8 => exact hproceed ignores_mstore8 m ex
  | sload =>
    simp only [perform, performLoad_padded]
    rfl
  | sstore =>
    simp only [perform]
    exact takeThen_padded ignores_takeStore fun _ _ => rfl
  | jump => exact hproceed (ignores_pop.bind ignores_jumpTo) m ex
  | jumpIf => exact hproceed ignores_jumpIf m ex
  | push width => exact hproceed (ignores_pushImmediate width) m ex
  | dup n => exact hproceed (ignores_dup n) m ex
  | swap n => exact hproceed (ignores_swap n) m ex
  | log topics =>
    simp only [perform]
    exact takeThen_padded (ignores_takeLog topics) fun _ _ => rfl
  | create =>
    simp only [perform]
    refine takeThen_padded ignores_takeCreation ?_
    intro operands taken
    split
    · rfl
    · exact hproceed (ignores_finishCreation _ _) taken _
  | call scheme =>
    simp only [perform]
    refine takeThen_padded (ignores_takeCall scheme) ?_
    intro request taken
    split
    · rfl
    · exact hproceed (ignores_finishCall _ _ _) taken _
  | ret =>
    simp only [perform]
    exact takeThen_padded ignores_ret fun _ _ => rfl
  | selfDestruct =>
    simp only [perform]
    refine takeThen_padded ignores_pop ?_
    intro target taken
    split <;> rfl

end Performing

end ContractMachine.Proofs
