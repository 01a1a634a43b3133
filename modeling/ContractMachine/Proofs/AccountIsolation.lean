import ContractMachine.Proofs.ExecutionSteps
import ContractMachine.Proofs.ValueConservation

/-!
# Accounts that run no frame

An execution changes an account only on behalf of that account: nonce, code and storage are written
and value is taken by frames that run at its address, whoever's code they run. All that others can
do is to send it value.
-/

namespace ContractMachine.Proofs

/-- Of the account at `a`, `w'` has all that `w` has, and perhaps more value. -/
structure Spares (a : Address) (w w' : World) : Prop where
  nonce : w'.nonce a = w.nonce a
  code : w'.code a = w.code a
  storage : (w'.view a).storage = (w.view a).storage
  balance : (w.balance a).toNat ≤ (w'.balance a).toNat
  present : w.exists? a = true → w'.exists? a = true
  marked : w'.isMarked a = w.isMarked a

namespace Spares

variable {a : Address} {w mid w' : World}

theorem refl (a : Address) (w : World) : Spares a w w :=
  ⟨rfl, rfl, rfl, Nat.le_refl _, id, rfl⟩

theorem trans (h : Spares a w mid) (h' : Spares a mid w') : Spares a w w' where
  nonce := h'.nonce.trans h.nonce
  code := h'.code.trans h.code
  storage := h'.storage.trans h.storage
  balance := h.balance.trans h'.balance
  present hw := h'.present (h.present hw)
  marked := h'.marked.trans h.marked

end Spares

lemma spares_of_account? {a : Address} {w w' : World} (h : w'.account? a = w.account? a)
    (hmarked : w'.isMarked a = w.isMarked a) : Spares a w w' := by
  have hview : w'.view a = w.view a := by rw [view_eq_getD, view_eq_getD, h]
  refine ⟨?_, ?_, congrArg Account.storage hview, ?_, ?_, hmarked⟩
  · rw [World.nonce, World.nonce, hview]
  · rw [World.code, World.code, hview]
  · rw [World.balance, World.balance, hview]
  · rw [exists?_eq_isSome, exists?_eq_isSome, h]
    exact id

lemma spares_of_replaced {a : Address} {w w' : World} {account : Account}
    (h : w'.account? a = some account) (hnonce : account.nonce = w.nonce a)
    (hcode : account.code = w.code a) (hstorage : account.storage = (w.view a).storage)
    (hbalance : (w.balance a).toNat ≤ account.balance.toNat)
    (hmarked : w'.isMarked a = w.isMarked a) : Spares a w w' := by
  have hview : w'.view a = account := by rw [view_eq_getD, h, Option.getD_some]
  refine ⟨?_, ?_, ?_, ?_, ?_, hmarked⟩
  · rw [World.nonce, hview, hnonce]
  · rw [World.code, hview, hcode]
  · rw [hview, hstorage]
  · rw [World.balance, World.balance, hview]
    exact hbalance
  · intro _
    rw [exists?_eq_isSome, h]
    rfl

section Changes

variable {a b : Address} (w : World)

lemma isMarked_congr {w w' : World} (h : w'.marked = w.marked) (a : Address) :
    w'.isMarked a = w.isMarked a := by
  rw [World.isMarked, World.isMarked, h]

lemma spares_setNonce (nonce : UInt64) (hb : b ≠ a) : Spares a w (w.setNonce b nonce) := by
  refine spares_of_account? ?_ (isMarked_congr (ensure_marked w b) a)
  rw [setNonce_account?, if_neg hb]

lemma spares_setCode (code : Bytes) (hb : b ≠ a) : Spares a w (w.setCode b code) := by
  refine spares_of_account? ?_ (isMarked_congr (ensure_marked w b) a)
  rw [setCode_account?, if_neg hb]

lemma spares_setStorage (slot value : Word) (hb : b ≠ a) :
    Spares a w (w.setStorage b slot value) := by
  refine spares_of_account? ?_ (isMarked_congr (ensure_marked w b) a)
  rw [setStorage_account?, if_neg hb]

lemma spares_subBalance (value : Word) (hb : b ≠ a) : Spares a w (w.subBalance b value) := by
  refine spares_of_account? ?_ (isMarked_congr (setBalance_marked w b _) a)
  rw [World.subBalance, setBalance_account?, if_neg hb]

lemma spares_selfDestruct (hb : b ≠ a) : Spares a w (w.selfDestruct b) := by
  refine spares_of_account? ?_ ?_
  · rw [selfDestruct_account?, if_neg hb]
  · simp [World.isMarked, World.selfDestruct, World.adjust, World.note,
      Std.ExtTreeSet.contains_insert, hb]

lemma le_saturatingAdd (balance value : Word) :
    balance.toNat ≤ (balance.saturatingAdd value).toNat := by
  unfold Word.saturatingAdd
  by_cases hfits : balance.toNat + value.toNat < Word.count
  · rw [if_pos hfits, BitVec.toNat_add_of_lt hfits]
    exact Nat.le_add_right _ _
  · rw [if_neg hfits]
    exact Nat.le_sub_one_of_lt balance.isLt

lemma spares_addBalance (b : Address) (value : Word) : Spares a w (w.addBalance b value) := by
  have hmarked := isMarked_congr (setBalance_marked w b ((w.balance b).saturatingAdd value)) a
  have haccount := setBalance_account? w b a ((w.balance b).saturatingAdd value)
  by_cases hb : b = a
  · subst hb
    rw [if_pos rfl] at haccount
    exact spares_of_replaced haccount rfl rfl rfl (le_saturatingAdd _ _) hmarked
  · rw [if_neg hb] at haccount
    exact spares_of_account? haccount hmarked

lemma spares_createAccount {w : World} (hb : b = a → w.exists? b = false) :
    Spares a w (w.createAccount b) := by
  have haccount := createAccount_account? w b a
  by_cases hab : b = a
  · subst hab
    have hnone : w.account? b = none := account?_eq_none (hb rfl)
    have hview : w.view b = .empty := by rw [view_eq_getD, hnone, Option.getD_none]
    rw [if_pos rfl] at haccount
    refine spares_of_replaced haccount rfl ?_ ?_ (Nat.le_refl _) rfl
    · rw [World.code, hview]
    · rw [hview]
  · rw [if_neg hab] at haccount
    exact spares_of_account? haccount rfl

end Changes

lemma spares_ensureAccount (a b : Address) (ex : Executor) :
    Spares a ex.world (ex.ensureAccount b).world := by
  unfold Executor.ensureAccount
  by_cases h : ex.world.exists? b = true
  · rw [if_pos h]
    exact .refl _ _
  · rw [if_neg h]
    exact spares_createAccount fun _ => by simpa using h

lemma spares_transfer {a : Address} {t : Transfer} {ex moved : Executor} (ht : t.source ≠ a)
    (h : Executor.transfer t ex = (.ok (), moved)) : Spares a ex.world moved.world := by
  obtain ⟨-, rfl⟩ := transfer_moved h
  exact (spares_subBalance _ _ ht).trans (spares_addBalance _ _ _)

lemma spares_markDestroyed {a address : Address} (target : Address) (ex : Executor)
    (ha : address ≠ a) :
    Spares a ex.world (Executor.markDestroyed address target ex).2.world := by
  unfold Executor.markDestroyed
  obtain ⟨-, h⟩ | ⟨-, h⟩ := transfer_cases ⟨address, target, ex.world.balance address⟩
    (ex.emit .executor (.selfDestruct address target (ex.world.balance address)))
  · simp only [h, emit_world]
    exact .refl _ _
  · have hmoved := spares_transfer ha h
    rw [emit_world] at hmoved
    simp only [h]
    exact hmoved.trans (spares_selfDestruct _ ha)

/-- The account that pays for the order. -/
inductive PaidBy (payer : Address) : Order → Prop
  | call {o : CallOrder} (h : ∀ t, o.transfer = some t → t.source = payer) : PaidBy payer (.call o)
  | create {o : CreationOrder} (h : o.caller = payer) : PaidBy payer (.create o)

lemma Orders.paidBy {c : Configuration} {task : Task} {order : Order} {ready : Executor}
    (h : Orders c task order ready) : PaidBy c.context.address order := by
  cases h with
  | @call grown taken _ scheme request hperforms hinstruction htake =>
    constructor
    intro t ht
    cases scheme <;> cases ht <;> rfl
  | create hperforms hinstruction htake => exact .create rfl

/-- The frame runs at another address, and its runner leaves the account at `a` alone. -/
structure Spared (runner : Runner) (a : Address) (c : Configuration) : Prop where
  elsewhere : c.context.address ≠ a
  spares : ∀ {exit m ex}, runner c.context c.machine c.executor = some (exit, m, ex) →
    Spares a c.executor.world ex.world

section Orders

variable {runner : Runner} {a payer : Address} {ex entered last after : Executor} {order : Order}
  {closing : Closing}

lemma Enters.spares (h : Enters ex order entered) (hpaid : PaidBy payer order) (ha : payer ≠ a) :
    Spares a ex.world entered.world := by
  cases h with
  | @call o paid hpay =>
    have hworld : paid.world = ex.world := pay_world hpay
    show Spares a ex.world paid.world
    rw [hworld]
    exact .refl _ _
  | @create o paid haccepted hpay =>
    cases hpaid with
    | create hcaller =>
      have hworld : paid.world = ex.world := pay_world hpay
      show Spares a ex.world (paid.world.setNonce o.caller _)
      rw [hworld]
      exact spares_setNonce _ _ (hcaller ▸ ha)

lemma Prepares.spares (h : Prepares ex order entered last) (hpaid : PaidBy payer order)
    (ha : payer ≠ a) (hcallee : order.callee ex ≠ a ∨ ∃ o, order = .call o) :
    Spares a entered.world last.world := by
  cases h with
  | @call o _ _ hdepth htransfer =>
    refine (spares_ensureAccount a o.context.address entered).trans ?_
    cases hpaid with
    | call hsource =>
      cases ht : o.transfer with
      | none =>
        rw [ht] at htransfer
        cases htransfer
        exact .refl _ _
      | some t =>
        rw [ht] at htransfer
        exact spares_transfer (hsource t ht ▸ ha) htransfer
  | @create o _ _ hfree htransfer =>
    obtain hcallee | ⟨o', ho⟩ := hcallee
    · have hmade : Spares a entered.world
          (entered.world.createAccount (ex.nextCreation o.caller)) :=
        spares_createAccount fun hsame => absurd hsame hcallee
      cases hpaid with
      | create hcaller =>
        refine hmade.trans (spares_transfer (t := ⟨o.caller, _, o.value⟩) ?_ htransfer)
        exact hcaller ▸ ha
    · cases ho

/-- A frame that is committed leaves the account alone if it runs elsewhere. Other frames are taken
back. -/
lemma Passes.spares (hchildren : ∀ {child}, Starts ex order child → Spared runner a child)
    (hpaid : PaidBy payer order) (ha : payer ≠ a)
    (h : Passes runner ex order entered last closing) (hcommit : closing = .commit) :
    Spares a entered.world last.world := by
  cases h with
  | tooDeep hdepth | unfunded hdepth htransfer | collided hcollision | unendowed hfree htransfer =>
    cases hcommit
  | codeless hprepares hcode => exact hprepares.spares hpaid ha (.inr ⟨_, rfl⟩)
  | called hprepares hstarts hrun =>
    exact (hprepares.spares hpaid ha (.inr ⟨_, rfl⟩)).trans ((hchildren hstarts).spares hrun)
  | @created o _ inner _ m m' started exit closing hprepares hstarts hrun hdeposits =>
    have hchild := hchildren hstarts
    have hlast : last.world = inner.world := by
      cases hdeposits with
      | paid hpay | unpaid hpay =>
        rw [record_eq, Prod.mk.injEq] at hpay
        rw [← hpay.2]
      | faulted f | reverted => rfl
    have hprepared := hprepares.spares hpaid ha (.inl hchild.elsewhere)
    rw [hlast]
    exact hprepared.trans (hchild.spares hrun)

/-- Carrying an order out leaves the account alone if it does not pay for the order and no frame of
the order runs there. -/
theorem carryOut_spares (hr : EvolvingRunner runner)
    (hchildren : ∀ {child}, Starts ex order child → Spared runner a child)
    (hpaid : PaidBy payer order) (ha : payer ≠ a) (h : order.carryOut runner ex = some after) :
    Spares a ex.world after.world := by
  obtain hrefused | ⟨entered, last, closing, henters, hpasses, hcloses⟩ := carryOut_cases hr h
  · rw [hrefused.world]
    exact .refl _ _
  · have hentered := henters.spares hpaid ha
    have hclosed : Spares a ex.world (last.close closing).world := by
      have hkeeps := (hpasses.evolves hr).keeps
      obtain ⟨self, outer, gasLimit, -, rfl⟩ := henters.around
      rw [close_world closing hkeeps, closedWorld]
      by_cases hcommit : closing = .commit
      · rw [if_pos hcommit]
        exact hentered.trans (hpasses.spares hchildren hpaid ha hcommit)
      · rw [if_neg hcommit]
        exact hentered
    cases hcloses with
    | plain => exact hclosed
    | founded _ code hstarts =>
      have hcallee := (hchildren hstarts).elsewhere
      rw [hstarts.prepared.1] at hcallee
      exact hclosed.trans (spares_setCode _ code hcallee)

end Orders

/-- No frame of the execution runs at `a`. -/
def Avoids (a : Address) (c : Configuration) : Prop :=
  ∀ c', Reaches c c' → c'.context.address ≠ a

lemma Avoids.leads {a : Address} {c d : Configuration} (h : Avoids a c) (hleads : Leads c d) :
    Avoids a d := fun c' hreaches => h c' (.head hleads hreaches)

lemma step_spares {fuel : Nat} {a : Address} {c : Configuration} {p : Progress}
    (hfuel : ∀ {d}, Avoids a d → Spared (run fuel) a d) (hc : Avoids a c)
    (h : step (run fuel) c.context c.machine c.executor = some p) :
    Spares a c.executor.world (Progress.executor p).world := by
  have hself : c.context.address ≠ a := hc c .refl
  obtain ⟨-, hworld⟩ | ⟨task, grown, ready, control, done, after, event, hperforms, hperform, hp⟩ :=
    step_performs h
  · rw [hworld]
    exact .refl _ _
  · have heffect := perform_effect hperform
    rw [hp, emit_world, ← hperforms.world]
    generalize hinstruction : task.operation.behaviour = i at heffect
    have hordered {order : Order} (horders : Orders c task order ready)
        (hcarried : order.carryOut (run fuel) ready = some after) :
        Spares a ready.world after.world :=
      carryOut_spares (run_evolves fuel)
        (fun hstarts => hfuel (hc.leads (.nested horders hstarts))) horders.paidBy hself hcarried
    cases heffect with
    | machine i => exact .refl _ _
    | loaded event =>
      rw [emit_world]
      exact .refl _ _
    | stored event slot value =>
      show Spares a ready.world ((ready.emit .runtime event).world.setStorage _ slot value)
      rw [emit_world]
      exact spares_setStorage _ slot value hself
    | logged topics data => exact spares_of_account? rfl rfl
    | destroyed target => exact spares_markDestroyed target ready hself
    | created hcreate htake =>
      apply hordered (.create hperforms hinstruction htake)
      simp only [Order.carryOut, hcreate, Option.map_some]
    | called htake hcall =>
      apply hordered (.call hperforms hinstruction htake)
      simp only [Order.carryOut, hcall, Option.map_some]

/-- A run leaves the account alone if none of its frames runs there. -/
theorem run_spares {a : Address} (fuel : Nat) {c : Configuration} (hc : Avoids a c) :
    Spared (run fuel) a c := by
  refine ⟨hc c .refl, ?_⟩
  -- Both the rest of the run and the frames below it have a smaller allowance.
  induction fuel generalizing c with
  | zero =>
    intro exit m ex h
    cases h
  | succ fuel ih =>
    intro exit m ex h
    have hfuel {d : Configuration} (hd : Avoids a d) : Spared (run fuel) a d :=
      ⟨hd d .refl, ih hd⟩
    obtain hstep | ⟨next, after, hstep, hrest⟩ := run_succ h
    · exact step_spares hfuel hc hstep
    · have hfirst : Spares a c.executor.world after.world := step_spares hfuel hc hstep
      exact hfirst.trans (ih (hc.leads (.next hstep)) hrest)

lemma runs_spares {a : Address} (allowance : Executor → Nat) {c : Configuration}
    (hc : Avoids a c) : Spared (runs allowance) a c where
  elsewhere := hc c .refl
  spares h := (run_spares (allowance c.executor) hc).spares h

lemma messageOrder_paidBy (m : Message) : PaidBy m.sender (messageOrder m) := by
  unfold messageOrder
  cases m.recipient with
  | none => exact .create rfl
  | some recipient =>
    constructor
    intro t ht
    cases ht
    rfl

lemma spares_messageStart {a : Address} (ex : Executor) {m : Message} (ha : m.sender ≠ a) :
    Spares a ex.world (messageStart ex m).world := by
  unfold messageStart
  cases m.recipient with
  | none => exact .refl _ _
  | some recipient =>
    exact (spares_ensureAccount a recipient ex).trans (spares_setNonce _ _ ha)

lemma spares_settle {a : Address} {w : World} (h : w.isMarked a = false) :
    Spares a w w.settle := by
  refine spares_of_account? ?_ ?_
  · rw [settle_account?, h]
    rfl
  · rw [h]
    simp [World.isMarked, World.settle]

/-- A message changes nothing of an account but its balance, and takes nothing from that, if the
account does not send the message, is not marked before, and no frame of the execution runs at its
address. Frames that run its code at other addresses are no exception, and neither are those that
are taken back. -/
theorem accounts_are_isolated {ex : Executor} {m : Message} {pool : GasPool} {applied : Applied}
    {a : Address} (hunmarked : ex.world.isMarked a = false) (hsender : m.sender ≠ a)
    (happlied : ex.applyMessage m pool = some applied)
    (hframes : ∀ outermost c,
      Starts (messageReady (ex.ensureAccount m.sender) m) (messageOrder m) outermost →
        Reaches outermost c → c.context.address ≠ a) :
    applied.executor.world.nonce a = ex.world.nonce a ∧
    applied.executor.world.code a = ex.world.code a ∧
    (applied.executor.world.view a).storage = (ex.world.view a).storage ∧
    (ex.world.balance a).toNat ≤ (applied.executor.world.balance a).toNat ∧
    (ex.world.exists? a = true → applied.executor.world.exists? a = true) := by
  have hspares : Spares a ex.world applied.executor.world := by
    obtain hsame | ⟨outcome, after, hexecuted, hworld⟩ := applyMessage_world happlied
    · rw [hsame]
      exact .refl _ _
    · obtain ⟨event, carried, hcarried, rfl⟩ := executeMessage_order hexecuted
      have hensured := spares_ensureAccount a m.sender ex
      have hstarted := spares_messageStart (ex.ensureAccount m.sender) hsender
      have hordered := carryOut_spares (runs_evolving _)
        (fun hstarts => runs_spares _ fun c hreaches => hframes _ c hstarts hreaches)
        (messageOrder_paidBy m) hsender hcarried
      rw [messageReady, emit_world] at hordered
      have hexecution := (hensured.trans hstarted).trans hordered
      rw [hworld, emit_world]
      exact hexecution.trans (spares_settle (hexecution.marked.trans hunmarked))
  exact ⟨hspares.nonce, hspares.code, hspares.storage, hspares.balance, hspares.present⟩

/-- An account whose code runs that of another one, which writes a slot, in its own place. -/
def delegatingExecutor : Executor :=
  let delegating : Bytes :=
    #[0x60, 0, 0x60, 0, 0x60, 0, 0x60, 0, 0x60, 0xc, 0x61, 0xff, 0xff, 0xf4]
  let accounts : Std.ExtTreeMap Address Account :=
    (Std.ExtTreeMap.empty.insert 0xb ⟨0, 0, ∅, delegating⟩).insert 0xc
      ⟨0, 0, (∅ : Storage).insert 0 7, #[0x60, 1, 0x60, 0, 0x55]⟩
  .new (.ofAccounts accounts) .homestead .zero

theorem accounts_are_isolated_delegatingExecutor :
    ∃ applied, delegatingExecutor.applyMessage ⟨0xa, some 0xb, 0, 0, true, #[], 100000⟩
        (.ofNat 100000) = some applied ∧
      applied.executor.world.storage 0xb 0 = 1 ∧
      (applied.executor.world.view 0xc).storage = (delegatingExecutor.world.view 0xc).storage := by
  have hends : (delegatingExecutor.applyMessage ⟨0xa, some 0xb, 0, 0, true, #[], 100000⟩
      (.ofNat 100000)).map (fun applied => applied.executor.world.storage 0xb 0) = some 1 := by
    decide +kernel
  obtain ⟨applied, happlied, hwritten⟩ := Option.map_eq_some_iff.mp hends
  have hsteps : ((messageOrder ⟨0xa, some 0xb, 0, 0, true, #[], 100000⟩).start?
      (messageReady (delegatingExecutor.ensureAccount 0xa)
        ⟨0xa, some 0xb, 0, 0, true, #[], 100000⟩)).all (fun outermost =>
      (run 20 outermost.context outermost.machine outermost.executor).isSome &&
        (steps 20 outermost).all fun c => c.context.address != 0xc) = true := by
    decide +kernel
  have hisolated := accounts_are_isolated (a := 0xc) (by decide +kernel) (by decide) happlied (by
    intro outermost c hstarts hreaches
    rw [start?_iff.mpr hstarts, Option.all_some, Bool.and_eq_true, List.all_eq_true] at hsteps
    obtain ⟨result, hrun⟩ := Option.isSome_iff_exists.mp hsteps.1
    exact bne_iff_ne.mp (hsteps.2 c (hreaches.mem_steps hrun)))
  exact ⟨applied, happlied, hwritten, hisolated.2.2.1⟩

end ContractMachine.Proofs
