import ContractMachine.Proofs.Nonces

/-!
# Where code comes from

Code is put in place when a creation has paid for it, and at no other time. So an execution leaves
the code at an address as it is unless a creation in it is given this address. An address is a
digest of the creator and its nonce, and no creation uses the nonce of another one; so an address
that has been given is given again in the same frame only if two digests are the same.
-/

namespace ContractMachine.Proofs

lemma transfer_code {t : Transfer} {ex moved : Executor}
    (h : Executor.transfer t ex = (.ok (), moved)) (a : Address) :
    moved.world.code a = ex.world.code a := by
  obtain ⟨-, rfl⟩ := transfer_moved h
  exact (setBalance_code _ _ _ _).trans (setBalance_code _ _ _ _)

lemma markDestroyed_code (address target a : Address) (ex : Executor) :
    (Executor.markDestroyed address target ex).2.world.code a = ex.world.code a := by
  unfold Executor.markDestroyed
  obtain ⟨-, h⟩ | ⟨-, h⟩ := transfer_cases ⟨address, target, ex.world.balance address⟩
    (ex.emit .executor (.selfDestruct address target (ex.world.balance address)))
  · simp only [h, emit_world]
  · have hmoved := transfer_code h a
    rw [emit_world] at hmoved
    simp only [h]
    exact (selfDestruct_code _ _ _).trans hmoved

section Orders

variable {runner : Runner} {a : Address} {ex entered started after : Executor} {order : Order}

lemma Enters.code (h : Enters ex order entered) (a : Address) :
    entered.world.code a = ex.world.code a := by
  rw [h.world]
  cases order with
  | call o => rfl
  | create o => exact setNonce_code _ _ _ _

lemma code_of_free {address : Address} (h : ex.isCollision address = false) :
    ex.world.code address = #[] :=
  Array.eq_empty_of_size_eq_zero (fresh_of_free h).2

lemma Prepares.code (h : Prepares ex order entered started) (a : Address) :
    started.world.code a = entered.world.code a := by
  cases h with
  | @call o _ _ hdepth htransfer =>
    have hensured : (entered.ensureAccount o.context.address).world.code a =
        entered.world.code a := by
      rw [World.code, ensureAccount_view]
      rfl
    refine Eq.trans ?_ hensured
    cases ht : o.transfer with
    | none =>
      rw [ht] at htransfer
      cases htransfer
      rfl
    | some t =>
      rw [ht] at htransfer
      exact transfer_code htransfer a
  | create hfree htransfer =>
    exact (transfer_code htransfer a).trans (createAccount_code (code_of_free hfree) _)

/-- The frame leaves the code at `a` as it finds it. -/
def LeavesCode (runner : Runner) (a : Address) (c : Configuration) : Prop :=
  ∀ {exit m ex}, runner c.context c.machine c.executor = some (exit, m, ex) →
    ex.world.code a = c.executor.world.code a

lemma Commits.code {last : Executor} {closing : Closing}
    (henters : Enters ex order entered)
    (hchildren : ∀ {child}, Starts ex order child → LeavesCode runner a child)
    (h : Commits runner ex order entered last closing) (hcommit : closing = .commit) :
    last.world.code a = entered.world.code a := by
  cases h with
  | undone hclosing hcommitted => exact absurd hcommit hclosing
  | codeless hcommitted hprepares => exact hprepares.code a
  | ran hcommitted hstarts hrun hworld =>
    rw [hworld, hchildren hstarts hrun]
    exact (henters.prepares hstarts).code a

/-- An order leaves the code at `a` as it is if its frame does, and if it is no creation that is
given this address. -/
theorem carryOut_code (hr : EvolvingRunner runner)
    (hchildren : ∀ {child}, Starts ex order child → LeavesCode runner a child)
    (hother : ∀ {o child}, order = .create o → Starts ex order child → ex.nextCreation o.caller ≠ a)
    (h : order.carryOut runner ex = some after) : after.world.code a = ex.world.code a := by
  obtain hrefused | ⟨entered, last, closing, henters, hpasses, hcloses⟩ := carryOut_cases hr h
  · rw [hrefused.world]
  · have hentered := henters.code a
    have hclosed : (last.close closing).world.code a = ex.world.code a := by
      have hkeeps := (hpasses.evolves hr).keeps
      have hcommits := hpasses.commits henters
      obtain ⟨self, outer, gasLimit, -, rfl⟩ := id henters.around
      rw [close_world closing hkeeps, closedWorld]
      by_cases hcommit : closing = .commit
      · rw [if_pos hcommit]
        exact (hcommits.code henters hchildren hcommit).trans hentered
      · rw [if_neg hcommit]
        exact hentered
    cases hcloses with
    | plain => exact hclosed
    | founded last code hstarts =>
      show ((last.close .commit).world.setCode _ _).code a = _
      rw [setCode_code, if_neg (hother rfl hstarts), hclosed]

end Orders

/-- A creation in the execution is given the address `a`. -/
inductive Assigns (a : Address) (c : Configuration) : Prop
  | intro {c' below : Configuration} {task : Task} {o : CreationOrder} {ready : Executor}
      (hreaches : Reaches c c') (horders : Orders c' task (.create o) ready)
      (hstarts : Starts ready (.create o) below) (ha : ready.nextCreation o.caller = a) :
    Assigns a c

variable {a : Address} {c d : Configuration} {fuel : Nat}

lemma Assigns.back (h : Assigns a d) (hleads : Leads c d) : Assigns a c := by
  cases h with
  | intro hreaches horders hstarts ha => exact .intro (.head hleads hreaches) horders hstarts ha

lemma step_code {p : Progress} (hfuel : ∀ {d}, ¬Assigns a d → LeavesCode (run fuel) a d)
    (hc : ¬Assigns a c) (h : step (run fuel) c.context c.machine c.executor = some p) :
    (Progress.executor p).world.code a = c.executor.world.code a := by
  obtain ⟨-, hworld⟩ | ⟨task, grown, ready, control, done, after, event, hperforms, hperform, hp⟩ :=
    step_performs h
  · rw [hworld]
  · have heffect := perform_effect hperform
    rw [hp, emit_world, ← hperforms.world]
    generalize hinstruction : task.operation.behaviour = i at heffect
    have hordered {order : Order} (horders : Orders c task order ready)
        (hcarried : order.carryOut (run fuel) ready = some after) :
        after.world.code a = ready.world.code a := by
      refine carryOut_code (run_evolves fuel) ?_ ?_ hcarried
      · exact fun hstarts => hfuel fun hassigns => hc (hassigns.back (.nested horders hstarts))
      · rintro o child rfl hstarts ha
        exact hc (.intro .refl horders hstarts ha)
    cases heffect with
    | machine i => rfl
    | loaded event => rw [emit_world]
    | stored event slot value =>
      show ((ready.emit .runtime event).world.setStorage _ _ _).code a = _
      rw [setStorage_code, emit_world]
    | logged topics data => rfl
    | destroyed target => exact markDestroyed_code _ target a ready
    | created hcreate htake =>
      apply hordered (.create hperforms hinstruction htake)
      simp only [Order.carryOut, hcreate, Option.map_some]
    | called htake hcall =>
      apply hordered (.call hperforms hinstruction htake)
      simp only [Order.carryOut, hcall, Option.map_some]

/-- A run leaves the code at an address as it finds it if none of its creations is given this
address. -/
theorem run_code (fuel : Nat) (hc : ¬Assigns a c) : LeavesCode (run fuel) a c := by
  -- Both the rest of the run and the frames below it have a smaller allowance.
  induction fuel generalizing c with
  | zero =>
    intro exit m ex h
    cases h
  | succ fuel ih =>
    intro exit m ex h
    obtain hstep | ⟨next, after, hstep, hrest⟩ := run_succ h
    · exact step_code ih hc hstep
    · have hfirst : after.world.code a = c.executor.world.code a := step_code ih hc hstep
      exact (ih (fun hassigns => hc (hassigns.back (.next hstep))) hrest).trans hfirst

end ContractMachine.Proofs
