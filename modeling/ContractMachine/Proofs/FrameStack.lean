import ContractMachine.Proofs.Refunds

/-!
# The stack of frames

The frames that wait are those around the one that runs, each one deeper than the next, down to
the frame around the transaction. A call checks the depth of the frame it has entered and a
creation that of the frame it is about to enter, and both let the same depths pass.
-/

namespace ContractMachine.Proofs

/-- The depths of the frames around a frame of depth `depth`, the innermost first. -/
def depthsBelow : Nat → List (Option Nat)
  | 0 => [none]
  | depth + 1 => some depth :: depthsBelow depth

/-- The depths of the frames around a frame, the innermost first. -/
def depthsAround (depth : Option Nat) : List (Option Nat) := depth.elim [] depthsBelow

lemma depthsBelow_length (depth : Nat) : (depthsBelow depth).length = depth + 1 := by
  induction depth with
  | zero => rfl
  | succ depth ih => simp only [depthsBelow, List.length_cons, ih]

lemma depthsBelow_live (depth : Nat) : (depthsBelow depth).countP Option.isSome = depth := by
  induction depth with
  | zero => rfl
  | succ depth ih => simp only [depthsBelow, List.countP_cons, ih, Option.isSome_some, if_true]

/-- The frames inside the transaction that have not ended. -/
def liveFrames (ex : Executor) : List Frame :=
  (ex.frame :: ex.waiting.map Prod.fst).filter fun frame => frame.depth.isSome

/-- Every frame is one deeper than the frame around it, and none is deeper than allowed. -/
structure Stacked (limit : Nat) (ex : Executor) : Prop where
  limited : ex.rules.callDepthLimit = limit
  depths : ex.waiting.map (fun entry => entry.1.depth) = depthsAround ex.frame.depth
  within : ∀ depth, ex.frame.depth = some depth → depth ≤ limit

section Stacked

variable {limit depth : Nat} {ex ex' : Executor}

lemma Stacked.keeps (hex : Stacked limit ex) (h : Keeps ex ex') : Stacked limit ex' := by
  constructor
  · rw [h.rules]
    exact hex.limited
  · rw [h.waiting, h.depth]
    exact hex.depths
  · rw [h.depth]
    exact hex.within

lemma Stacked.waiting_length (hex : Stacked limit ex) (hdepth : ex.frame.depth = some depth) :
    ex.waiting.length = depth + 1 := by
  have hlength := congrArg List.length hex.depths
  rwa [List.length_map, hdepth, depthsAround, Option.elim_some, depthsBelow_length] at hlength

lemma Stacked.liveFrames_length (hex : Stacked limit ex) (hdepth : ex.frame.depth = some depth) :
    (liveFrames ex).length = depth + 1 := by
  have hwaiting : (ex.waiting.map Prod.fst).countP (fun frame => frame.depth.isSome) = depth := by
    have hcount := congrArg (List.countP Option.isSome) hex.depths
    rw [hdepth, depthsAround, Option.elim_some, depthsBelow_live, List.countP_map] at hcount
    rw [List.countP_map]
    exact hcount
  rw [liveFrames, ← List.countP_eq_length_filter, List.countP_cons, hwaiting, hdepth]
  rfl

end Stacked

section Entering

variable {limit : Nat} {ex entered started : Executor} {order : Order} {child : Configuration}

/-- The depth of a frame inside this one. -/
def innerDepth (ex : Executor) : Nat := ex.frame.depth.elim 0 (· + 1)

lemma depthsAround_innerDepth (ex : Executor) :
    depthsAround (some (innerDepth ex)) = ex.frame.depth :: depthsAround ex.frame.depth := by
  unfold innerDepth
  cases ex.frame.depth <;> rfl

/-- The two ways to look at the depth agree: what is ready to run is no deeper than allowed. -/
lemma Prepares.within (henters : Enters ex order entered) (h : Prepares ex order entered started) :
    innerDepth ex ≤ ex.rules.callDepthLimit := by
  cases h with
  | call hdepth htransfer =>
    cases henters with
    | @call o paid hpay =>
      have hkeeps := (pay_evolves 0 hpay).keeps
      simp only [Executor.isTooDeep, Executor.enter, Frame.child, decide_eq_false_iff_not,
        hkeeps.depth, hkeeps.rules] at hdepth
      exact Nat.le_of_not_lt hdepth
  | create hfree htransfer =>
    cases henters with
    | @create o paid haccepted hpay =>
      have hrefused := creationFault_eq_none.mp haccepted
      unfold innerDepth
      cases hdepth : ex.frame.depth with
      | none => exact Nat.zero_le _
      | some depth =>
        refine Nat.le_of_not_lt fun hdeep => ?_
        exact hrefused (.inl ⟨depth, hdepth, hdeep⟩)

lemma Starts.stacked (h : Starts ex order child) (hex : Stacked limit ex) :
    Stacked limit child.executor ∧ child.executor.frame.depth = some (innerDepth ex) := by
  obtain ⟨-, entered, henters, hprepares⟩ := h.prepared
  have hwithin := hprepares.within henters
  rw [hex.limited] at hwithin
  obtain ⟨self, outer, gasLimit, houter, rfl⟩ := henters.around
  have hkeeps := houter.keeps
  have hstarted := hprepares.evolves.1.keeps
  have hinner : (outer.enter gasLimit false).frame.depth = some (innerDepth ex) := by
    simp only [innerDepth, ← hkeeps.depth]
    rfl
  have hentered : Stacked limit (outer.enter gasLimit false) := by
    have houterStacked := hex.keeps hkeeps
    constructor
    · exact houterStacked.limited
    · rw [hinner, depthsAround_innerDepth, ← hkeeps.depth]
      exact congrArg (outer.frame.depth :: ·) houterStacked.depths
    · intro depth hdepth
      rw [hinner, Option.some.injEq] at hdepth
      subst hdepth
      exact hwithin
  exact ⟨hentered.keeps hstarted, hstarted.depth.trans hinner⟩

end Entering

/-- At each of its steps a frame is inside the transaction and where its depth says. -/
theorem Reaches.stacked {limit : Nat} {c c' : Configuration} (h : Reaches c c')
    (hc : Stacked limit c.executor) (hinside : c.executor.frame.depth.isSome) :
    Stacked limit c'.executor ∧ c'.executor.frame.depth.isSome := by
  induction h with
  | refl => exact ⟨hc, hinside⟩
  | tail _ hleads ih =>
    cases hleads with
    | @next fuel m ex hstep =>
      have hkeeps : Keeps _ ex := (step_evolves (run_evolves fuel) hstep).keeps
      refine ⟨ih.1.keeps hkeeps, ?_⟩
      rw [hkeeps.depth]
      exact ih.2
    | nested horders hstarts =>
      obtain ⟨grown, hperforms⟩ := horders.performs
      obtain ⟨hstacked, hdepth⟩ := hstarts.stacked (ih.1.keeps hperforms.evolves.keeps)
      refine ⟨hstacked, ?_⟩
      rw [hdepth]
      rfl

lemma Transaction.start_outermost (ex : Executor) (t : Transaction) :
    (t.start ex).waiting = [] ∧ (t.start ex).frame.depth = none ∧
      (t.start ex).rules = ex.rules := by
  have hemitted (outer : Executor) (event : Event) :
      (outer.emit .executor event).waiting = outer.waiting ∧
        (outer.emit .executor event).frame.depth = outer.frame.depth ∧
          (outer.emit .executor event).rules = outer.rules := by
    have hkeeps := keeps_emit outer .executor event
    exact ⟨hkeeps.waiting, hkeeps.depth, hkeeps.rules⟩
  cases t with
  | call caller | create caller => exact hemitted (ex.reset caller _) _

/-- The frames that wait and the place of the frame that runs are what they were. -/
structure Restored (ex ex' : Executor) : Prop where
  waiting : ex'.waiting = ex.waiting
  depth : ex'.frame.depth = ex.frame.depth
  readOnly : ex'.frame.readOnly = ex.frame.readOnly
  gasLimit : ex'.frame.meter.limit = ex.frame.meter.limit

lemma Keeps.restored {ex ex' : Executor} (h : Keeps ex ex') : Restored ex ex' :=
  ⟨h.waiting, h.depth, h.frameReadOnly, h.limit⟩

lemma Transaction.execute_restored {ex after : Executor} {t : Transaction}
    (h : t.execute ex = some after) : Restored (t.start ex) after := by
  have hr : EvolvingRunner (runs Executor.stepAllowance) := runs_evolving _
  have hemitted {mid : Executor} (event : Event) (hmid : Keeps (t.start ex) mid) :
      Restored (t.start ex) (mid.emit .executor event) :=
    (hmid.trans (keeps_emit _ _ _)).restored
  cases t with
  | call caller address value input gasLimit =>
    simp only [Transaction.execute, Executor.transactCall] at h
    split at h
    · cases h
    · next result mid hcall =>
      cases h
      exact hemitted _ (call_evolves hr caller hcall).keeps
  | create caller value initCode gasLimit =>
    simp only [Transaction.execute, Executor.transactCreate] at h
    split at h
    · cases h
    · next result mid hcreate =>
      cases h
      exact hemitted _ (create_evolves hr hcreate).keeps

/-- Whatever instruction is executed in a transaction, its frame has a depth that the limit allows,
as many frames wait as the depth says, and one more frame is live. Calls and creations restore the
frames that wait and the place of the frame that runs, however they end, so that no frame waits
when the transaction returns. -/
theorem frames_are_stacked (ex : Executor) (t : Transaction) :
    (∀ outermost c, Starts (t.start ex) t.order outermost → Reaches outermost c →
      ∃ depth, c.executor.frame.depth = some depth ∧
        c.executor.waiting.length = depth + 1 ∧
        depth ≤ ex.rules.callDepthLimit ∧
        (liveFrames c.executor).length ≤ ex.rules.callDepthLimit + 1) ∧
    (∀ allowance outer codeAddress transfer input targetGas withStipend context outcome after,
      Executor.call (runs allowance) outer codeAddress transfer input targetGas withStipend
        context = some (outcome, after) → Restored outer after) ∧
    (∀ allowance outer caller value initCode targetGas outcome after,
      Executor.create (runs allowance) outer caller value initCode targetGas =
        some (outcome, after) → Restored outer after) ∧
    (∀ after, t.execute ex = some after → after.waiting = []) ∧
    (IsStandard ex.instructions → Metered ex.rules → ∃ after, t.execute ex = some after) := by
  obtain ⟨hwaiting, hdepth, hrules⟩ := t.start_outermost ex
  refine ⟨?_, ?_, ?_, ?_, ?_⟩
  · intro outermost c hstarts hreaches
    have hstart : Stacked ex.rules.callDepthLimit (t.start ex) := by
      constructor
      · rw [hrules]
      · rw [hwaiting, hdepth]
        rfl
      · rw [hdepth]
        exact nofun
    obtain ⟨houtermost, hzero⟩ := hstarts.stacked hstart
    obtain ⟨hstacked, hinside⟩ := hreaches.stacked houtermost (by rw [hzero]; rfl)
    obtain ⟨depth, hc⟩ := Option.isSome_iff_exists.mp hinside
    have hwithin := hstacked.within depth hc
    refine ⟨depth, hc, hstacked.waiting_length hc, hwithin, ?_⟩
    rw [hstacked.liveFrames_length hc]
    exact Nat.add_le_add_right hwithin 1
  · intro allowance outer codeAddress transfer input targetGas withStipend context outcome after h
    exact (call_evolves (runs_evolving allowance) context.address h).keeps.restored
  · intro allowance outer caller value initCode targetGas outcome after h
    exact (create_evolves (runs_evolving allowance) h).keeps.restored
  · intro after h
    exact (Transaction.execute_restored h).waiting.trans hwaiting
  · intro hs hm
    have hex : Ordinary ex := ⟨hs, hm⟩
    obtain ⟨carried, event, -, hexecuted⟩ := t.carriedOut hex
    exact ⟨_, hexecuted⟩

/-- An account whose code calls itself with almost all its gas, under a small depth limit. -/
def recursiveExecutor : Executor :=
  let rules : Rules := { Rules.homestead with callDepthLimit := 2 }
  let calling : Bytes :=
    #[0x60, 0, 0x60, 0, 0x60, 0, 0x60, 0, 0x60, 0, 0x30, 0x60, 0x64, 0x5a, 0x03, 0xf1]
  .new (.ofAccounts (Std.ExtTreeMap.empty.insert 0xc ⟨0, 0, ∅, calling⟩)) rules .zero

theorem frames_are_stacked_recursiveExecutor :
    ∃ outermost c after,
      Starts ((Transaction.call 0xa 0xc 0 #[] 10000).start recursiveExecutor)
        (Transaction.call 0xa 0xc 0 #[] 10000).order outermost ∧
      Reaches outermost c ∧ c.executor.waiting.length = 3 ∧
      (Transaction.call 0xa 0xc 0 #[] 10000).execute recursiveExecutor = some after ∧
      after.waiting = [] := by
  generalize ht : Transaction.call 0xa 0xc 0 #[] 10000 = t
  have hinstructions : recursiveExecutor.instructions = .homestead := rfl
  obtain ⟨hinside, -, -, hended, hreturns⟩ := frames_are_stacked recursiveExecutor t
  obtain ⟨after, hafter⟩ := hreturns (.inr hinstructions) (ForkPriced.metered ⟨.homestead, rfl⟩)
  have hdeepest : ((t.order.start? (t.start recursiveExecutor)).any fun outermost =>
      (steps 50 outermost).any fun c => c.executor.frame.depth == some 2) = true := by
    subst ht
    decide +kernel
  obtain ⟨outermost, hstarts, hdeep⟩ := (Option.any_eq_true _ _).mp hdeepest
  obtain ⟨c, hmem, hdepth⟩ := List.any_eq_true.mp hdeep
  have hreaches := reaches_of_mem_steps hmem
  obtain ⟨depth, hc, hwaiting, -, -⟩ := hinside outermost c (start?_iff.mp hstarts) hreaches
  rw [eq_of_beq hdepth, Option.some.injEq] at hc
  subst hc
  exact ⟨outermost, c, after, start?_iff.mp hstarts, hreaches, hwaiting, hafter,
    hended after hafter⟩

end ContractMachine.Proofs
