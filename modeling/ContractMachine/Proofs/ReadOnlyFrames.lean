import ContractMachine.Proofs.FuelIndependence

/-!
# Read-only frames

A read-only frame refuses every instruction that writes, and a call that sends value. What it may
still do to the world is to run calls that send none, which can make empty accounts, and to have
its account send value to itself. The frames that it enters are read-only as well.
-/

namespace ContractMachine.Proofs

/-- `w'` is `w` but for empty accounts at some of the `allowed` addresses. -/
structure Untouched (allowed : Address → Prop) (w w' : World) : Prop where
  present : ∀ a account, w.account? a = some account → w'.account? a = some account
  absent : ∀ a account, w.account? a = none → w'.account? a = some account →
    account = .empty ∧ allowed a
  marked : w'.marked = w.marked
  trail : w'.trail = w.trail

namespace Untouched

variable {allowed : Address → Prop} {w mid w' : World}

theorem refl (allowed : Address → Prop) (w : World) : Untouched allowed w w where
  present _ _ h := h
  absent a account hnone hsome := by
    rw [hnone] at hsome
    cases hsome
  marked := rfl
  trail := rfl

theorem trans (h : Untouched allowed w mid) (h' : Untouched allowed mid w') :
    Untouched allowed w w' where
  present a account ha := h'.present a account (h.present a account ha)
  absent a account hnone hsome := by
    cases hmid : mid.account? a with
    | none => exact h'.absent a account hmid hsome
    | some made =>
      have hsame := h'.present a made hmid
      rw [hsome, Option.some.injEq] at hsame
      subst hsame
      exact h.absent a account hnone hmid
  marked := h'.marked.trans h.marked
  trail := h'.trail.trans h.trail

theorem mono {allowed' : Address → Prop} (h : Untouched allowed w w')
    (hle : ∀ a, allowed a → allowed' a) : Untouched allowed' w w' where
  present := h.present
  absent a account hnone hsome := by
    obtain ⟨hempty, ha⟩ := h.absent a account hnone hsome
    exact ⟨hempty, hle a ha⟩
  marked := h.marked
  trail := h.trail

theorem view (h : Untouched allowed w w') (a : Address) : w'.view a = w.view a := by
  rw [view_eq_getD, view_eq_getD]
  cases ha : w.account? a with
  | some account => rw [h.present a account ha]
  | none =>
    cases ha' : w'.account? a with
    | none => rfl
    | some account =>
      rw [(h.absent a account ha ha').1]
      rfl

end Untouched

/-- One account is replaced by what it reads as anyway. -/
lemma untouched_of_view {allowed : Address → Prop} {w w' : World} {a : Address}
    (haccount : ∀ b, w'.account? b = if a = b then some (w.view a) else w.account? b)
    (ha : w.account? a = none → allowed a) (hmarked : w'.marked = w.marked)
    (htrail : w'.trail = w.trail) : Untouched allowed w w' where
  present b account hb := by
    rw [haccount]
    by_cases hab : a = b
    · subst hab
      rw [if_pos rfl, view_eq_getD, hb, Option.getD_some]
    · rw [if_neg hab]
      exact hb
  absent b account hnone hsome := by
    rw [haccount] at hsome
    by_cases hab : a = b
    · subst hab
      rw [if_pos rfl, view_eq_getD, hnone, Option.getD_none, Option.some.injEq] at hsome
      exact ⟨hsome.symm, ha hnone⟩
    · rw [if_neg hab, hnone] at hsome
      cases hsome
  marked := hmarked
  trail := htrail

lemma untouched_createAccount {allowed : Address → Prop} {w : World} {a : Address}
    (habsent : w.exists? a = false) (ha : allowed a) : Untouched allowed w (w.createAccount a) := by
  have hnone : w.account? a = none := account?_eq_none habsent
  have hview : w.view a = .empty := by rw [view_eq_getD, hnone, Option.getD_none]
  refine untouched_of_view (a := a) ?_ (fun _ => ha) rfl rfl
  intro b
  rw [createAccount_account?, hview, World.nonce, World.balance, hview]

lemma untouched_setBalance_same {allowed : Address → Prop} {w : World} {a : Address}
    (ha : w.account? a = none → allowed a) :
    Untouched allowed w (w.setBalance a (w.balance a)) := by
  refine untouched_of_view (a := a) ?_ ha (setBalance_marked _ _ _) (setBalance_trail _ _ _)
  intro b
  rw [setBalance_account?]
  rfl

lemma saturatingSub_zero (w : Word) : w.saturatingSub 0 = w := by
  simp [Word.saturatingSub]

lemma saturatingAdd_zero (w : Word) : w.saturatingAdd 0 = w := by
  have hw : w.toNat < Word.count := w.isLt
  simp [Word.saturatingAdd, hw]

lemma untouched_move_zero {allowed : Address → Prop} (w : World) {source target : Address}
    (hsource : allowed source) (htarget : allowed target) :
    Untouched allowed w ((w.subBalance source 0).addBalance target 0) := by
  unfold World.subBalance World.addBalance
  rw [saturatingSub_zero, saturatingAdd_zero]
  exact (untouched_setBalance_same fun _ => hsource).trans
    (untouched_setBalance_same fun _ => htarget)

lemma saturatingAdd_saturatingSub {balance value : Word} (h : ¬balance < value) :
    (balance.saturatingSub value).saturatingAdd value = balance := by
  have hle : value.toNat ≤ balance.toNat := by
    rw [BitVec.lt_def] at h
    omega
  have hbalance : balance.toNat < Word.count := balance.isLt
  have hleft : (balance - value).toNat = balance.toNat - value.toNat := BitVec.toNat_sub_of_le hle
  have hfits : (balance - value).toNat + value.toNat < Word.count := by omega
  unfold Word.saturatingSub Word.saturatingAdd
  rw [if_pos hle, if_pos hfits]
  exact BitVec.sub_add_cancel balance value

lemma untouched_move_self (allowed : Address → Prop) {w : World} {a : Address} {value : Word}
    (ha : w.exists? a = true) (hfunds : ¬w.balance a < value) :
    Untouched allowed w ((w.subBalance a value).addBalance a value) := by
  have hview : (w.subBalance a value).view a =
      { w.view a with balance := (w.balance a).saturatingSub value } := by
    unfold World.subBalance
    rw [setBalance_view, if_pos rfl]
  refine untouched_of_view (a := a) ?_ ?_ ?_ ?_
  · intro b
    unfold World.addBalance
    rw [setBalance_account?, World.balance, hview]
    by_cases hab : a = b
    · rw [if_pos hab, if_pos hab]
      simp only [saturatingAdd_saturatingSub hfunds]
      rfl
    · rw [if_neg hab, if_neg hab]
      unfold World.subBalance
      rw [setBalance_account?, if_neg hab]
  · intro hnone
    rw [account?_of_exists ha] at hnone
    cases hnone
  · unfold World.addBalance
    rw [setBalance_marked]
    exact setBalance_marked _ _ _
  · unfold World.addBalance
    rw [setBalance_trail]
    exact setBalance_trail _ _ _

lemma vet_readOnly {ex : Executor} {op : Opcode} {o : Operation} {stack : Stack}
    {memoryEnd : Option Nat} (hreadOnly : ex.frame.readOnly = true)
    (h : ex.vet op o stack = .ok memoryEnd) : o.changesWorld op stack = .ok false := by
  have hrefuses : ex.refusesWrite op o stack = o.changesWorld op stack := if_pos hreadOnly
  unfold Executor.vet at h
  rw [hrefuses] at h
  cases hvalid : o.valid with
  | false => simp [hvalid, bind, Except.bind, throw, throwThe, MonadExceptOf.throw] at h
  | true =>
    cases hstack : o.checkStack stack with
    | error f => simp [hvalid, hstack, bind, Except.bind] at h
    | ok u =>
      cases hchanges : o.changesWorld op stack with
      | error f => simp [hvalid, hstack, hchanges, bind, Except.bind] at h
      | ok changes =>
        cases changes with
        | false => rfl
        | true =>
          simp [hvalid, hstack, hchanges, bind, Except.bind, throw, throwThe,
            MonadExceptOf.throw] at h

/-- A read-only frame performs no instruction that writes, and sends no value in a call. -/
lemma Performs.readOnly {c : Configuration} {task : Task} {grown : Machine} {ready : Executor}
    (hs : IsStandard c.executor.instructions) (hreadOnly : c.executor.frame.readOnly = true)
    (h : Performs c task grown ready) :
    (Operation.standard task.operation.behaviour).writes = false ∧
      (task.operation.behaviour = .call .call → sentValue .call c.machine.stack = 0) := by
  have hvetted := h.vetted.1
  obtain ⟨-, hop, hstandard⟩ := task_of_standard hs hvetted
  have hchanges := vet_readOnly hreadOnly (task_of_admitted hvetted).2
  rw [← hstandard]
  unfold Operation.changesWorld at hchanges
  cases hwrites : task.operation.writes with
  | true => simp [hwrites] at hchanges
  | false =>
    refine ⟨rfl, ?_⟩
    intro hinstruction
    rw [hinstruction] at hop
    have hcall : task.op = .call := opcode_of_call hop
    rw [hcall] at hchanges
    simp only [hwrites, Bool.false_eq_true, if_false, if_true] at hchanges
    cases hpeek : c.machine.stack.peek 2 with
    | error f => simp only [sentValue, hpeek]
    | ok value =>
      simp only [hpeek, Except.map, Except.ok.injEq] at hchanges
      simp only [sentValue, hpeek]
      simpa using hchanges

/-- In this execution a call that sends no value has the account as its target. -/
def CalledWithoutValue (c : Configuration) (a : Address) : Prop :=
  ∃ caller task o ready, Reaches c caller ∧ Orders caller task (.call o) ready ∧
    o.context.address = a ∧ o.transfer = some ⟨caller.context.address, a, 0⟩

/-- Where a read-only frame can make an account: at the targets of such calls, and at its own
address, from which they are sent. -/
def MayAppear (c : Configuration) (a : Address) : Prop :=
  CalledWithoutValue c a ∨ a = c.context.address

lemma MayAppear.of_reaches {c c' : Configuration} {a : Address} (ha : MayAppear c' a)
    (h : Reaches c c') (hself : MayAppear c c'.context.address) : MayAppear c a := by
  obtain ⟨caller, task, o, ready, hreaches, horders, haddress, ht⟩ | rfl := ha
  · exact .inl ⟨caller, task, o, ready, h.trans hreaches, horders, haddress, ht⟩
  · exact hself

/-- A frame is read-only and runs a standard instruction set. -/
structure Restricted (ex : Executor) : Prop where
  standard : IsStandard ex.instructions
  readOnly : ex.frame.readOnly = true

lemma Restricted.evolves {self : Address} {ex ex' : Executor} (h : Evolves self ex ex')
    (hex : Restricted ex) : Restricted ex' := by
  constructor
  · rw [h.keeps.instructions]
    exact hex.standard
  · rw [h.keeps.frameReadOnly]
    exact hex.readOnly

lemma Restricted.enter {ex : Executor} (gasLimit : Nat) (hex : Restricted ex) :
    Restricted (ex.enter gasLimit false) := ⟨hex.standard, hex.readOnly⟩

/-- Every frame below a read-only frame is read-only. -/
theorem Reaches.restricted {c c' : Configuration} (h : Reaches c c')
    (hc : Restricted c.executor) : Restricted c'.executor :=
  h.invariant Restricted.evolves Restricted.enter hc

lemma Enters.restricted {c : Configuration} {task : Task} {order : Order}
    {ready entered : Executor} (hc : Restricted c.executor) (horders : Orders c task order ready)
    (henters : Enters ready order entered) : Restricted entered := by
  obtain ⟨grown, hperforms⟩ := horders.performs
  obtain ⟨self, outer, gasLimit, houter, rfl⟩ := henters.around
  exact ((hc.evolves hperforms.evolves).evolves houter).enter gasLimit

/-- A call in a read-only frame sends no value, unless the account of the frame sends it to
itself. -/
lemma Orders.sendsNothing {c : Configuration} {task : Task} {o : CallOrder} {ready : Executor}
    (hc : Restricted c.executor) (h : Orders c task (.call o) ready) :
    o.transfer = some ⟨c.context.address, o.context.address, 0⟩ ∨
      (o.context.address = c.context.address ∧ (o.transfer = none ∨
        ∃ value, o.transfer = some ⟨c.context.address, c.context.address, value⟩)) := by
  cases h with
  | @call grown taken _ scheme request hperforms hinstruction htake =>
    cases scheme with
    | call =>
      have hsent := (hperforms.readOnly hc.standard hc.readOnly).2 hinstruction
      have hsends := sendsValue_eq c.context htake
      rw [hperforms.vetted.2, hsent] at hsends
      have hvalue : request.value = 0 := by
        simpa [Context.transferFor, Executor.sendsValue] using hsends
      left
      rw [Context.transferFor, hvalue]
      rfl
    -- The other calls run foreign code at the address of the frame itself.
    | callCode => exact .inr ⟨rfl, .inr ⟨request.value, rfl⟩⟩
    | delegateCall => exact .inr ⟨rfl, .inl rfl⟩

lemma Orders.mayAppear {c : Configuration} {task : Task} {o : CallOrder} {ready : Executor}
    (hc : Restricted c.executor) (h : Orders c task (.call o) ready) :
    MayAppear c o.context.address := by
  obtain ht | ⟨hself, -⟩ := h.sendsNothing hc
  · exact .inl ⟨c, task, o, ready, .refl, h, rfl, ht⟩
  · exact .inr hself

lemma untouched_ensureAccount {allowed : Address → Prop} (ex : Executor) {a : Address}
    (ha : allowed a) : Untouched allowed ex.world (ex.ensureAccount a).world := by
  unfold Executor.ensureAccount
  by_cases h : ex.world.exists? a = true
  · rw [if_pos h]
    exact .refl _ _
  · rw [if_neg h]
    exact untouched_createAccount (by simpa using h) ha

lemma ensureAccount_exists (ex : Executor) (a : Address) :
    (ex.ensureAccount a).world.exists? a = true := by
  unfold Executor.ensureAccount
  by_cases h : ex.world.exists? a = true
  · rw [if_pos h]
    exact h
  · rw [if_neg h]
    simp [Executor.onWorld, World.createAccount, World.exists?, World.note]

lemma Prepares.untouched {c : Configuration} {task : Task} {o : CallOrder}
    {ready entered started : Executor} (hc : Restricted c.executor)
    (horders : Orders c task (.call o) ready) (h : Prepares ready (.call o) entered started) :
    Untouched (MayAppear c) entered.world started.world := by
  have hensured := untouched_ensureAccount entered (horders.mayAppear hc)
  have hexists := ensureAccount_exists entered o.context.address
  cases h with
  | call hdepth htransfer =>
    refine hensured.trans ?_
    generalize entered.ensureAccount o.context.address = ensured at htransfer hexists
    obtain ht | ⟨hself, ht | ⟨value, ht⟩⟩ := horders.sendsNothing hc
    · rw [ht] at htransfer
      obtain ⟨-, rfl⟩ := transfer_moved htransfer
      exact untouched_move_zero _ (.inr rfl) (horders.mayAppear hc)
    · rw [ht] at htransfer
      cases htransfer
      exact .refl _ _
    · rw [ht] at htransfer
      obtain ⟨hfunds, rfl⟩ := transfer_moved htransfer
      rw [hself] at hexists
      exact untouched_move_self _ hexists hfunds

def RunsUntouched (fuel : Nat) : Prop :=
  ∀ {c : Configuration} {exit : Exit} {m : Machine} {ex : Executor}, Restricted c.executor →
    run fuel c.context c.machine c.executor = some (exit, m, ex) →
      Untouched (MayAppear c) c.executor.world ex.world

lemma Passes.untouched {fuel : Nat} (hfuel : RunsUntouched fuel) {c : Configuration} {task : Task}
    {o : CallOrder} {ready entered last : Executor} {closing : Closing}
    (hc : Restricted c.executor) (horders : Orders c task (.call o) ready)
    (h : Passes (run fuel) ready (.call o) entered last closing) :
    Untouched (MayAppear c) entered.world last.world := by
  cases h with
  | tooDeep hdepth => exact .refl _ _
  | @unfunded _ _ _ f hdepth htransfer =>
    have hensured := untouched_ensureAccount entered (horders.mayAppear hc)
    have hlast : last = entered.ensureAccount o.context.address := by
      cases ht : o.transfer with
      | none =>
        rw [ht] at htransfer
        cases htransfer
      | some t =>
        rw [ht] at htransfer
        exact transfer_refused htransfer
    rw [hlast]
    exact hensured
  | codeless hprepares hcode => exact hprepares.untouched hc horders
  | @called _ _ _ m m' started exit hprepares hstarts hrun =>
    have hreaches : Reaches c ⟨o.context, m, started⟩ := .single (.nested horders hstarts)
    have hchild : Untouched (MayAppear ⟨o.context, m, started⟩) started.world last.world :=
      hfuel (c := ⟨o.context, m, started⟩) (hreaches.restricted hc) hrun
    have hprepared := hprepares.untouched hc horders
    exact hprepared.trans (hchild.mono fun a ha => ha.of_reaches hreaches (horders.mayAppear hc))

lemma carryOut_untouched {fuel : Nat} (hfuel : RunsUntouched fuel) {c : Configuration}
    {task : Task} {o : CallOrder} {ready after : Executor} (hc : Restricted c.executor)
    (horders : Orders c task (.call o) ready)
    (h : (Order.call o).carryOut (run fuel) ready = some after) :
    Untouched (MayAppear c) ready.world after.world := by
  obtain ⟨f, hpay⟩ | ⟨entered, last, closing, henters, hpasses, rfl⟩ := carryOut_call h
  · rw [show after.world = ready.world from pay_world hpay]
    exact .refl _ _
  · have huntouched := hpasses.untouched hfuel hc horders
    have hkeeps := (hpasses.evolves (run_evolves fuel)).keeps
    cases henters with
    | @call _ paid hpay =>
      have hworld : paid.world = ready.world := pay_world hpay
      rw [close_world closing hkeeps, closedWorld, ← hworld]
      by_cases hcommit : closing = .commit
      · rw [if_pos hcommit]
        exact huntouched
      · rw [if_neg hcommit]
        exact .refl _ _

lemma step_untouched {fuel : Nat} (hfuel : RunsUntouched fuel) {c : Configuration} {p : Progress}
    (hc : Restricted c.executor)
    (h : step (run fuel) c.context c.machine c.executor = some p) :
    Untouched (MayAppear c) c.executor.world (Progress.executor p).world := by
  obtain ⟨-, hworld⟩ | ⟨task, grown, ready, control, done, after, event, hperforms, hperform, hp⟩ :=
    step_performs h
  · rw [hworld]
    exact .refl _ _
  · have hwrites := (hperforms.readOnly hc.standard hc.readOnly).1
    have heffect := perform_effect hperform
    rw [hp, emit_world, ← hperforms.world]
    generalize hinstruction : task.operation.behaviour = i at heffect hwrites
    cases heffect with
    | machine i => exact .refl _ _
    | loaded event =>
      rw [emit_world]
      exact .refl _ _
    -- What writes is refused, so that only calls are left to look into.
    | stored event slot value => cases hwrites
    | logged topics data => cases hwrites
    | created h => cases hwrites
    | destroyed target => cases hwrites
    | called htake hcall =>
      have horders := Orders.call hperforms hinstruction htake
      apply carryOut_untouched hfuel hc horders
      simp only [Order.carryOut, hcall, Option.map_some]

/-- A read-only frame and all frames below it leave the world as it was, but for empty
accounts. -/
theorem run_untouched (fuel : Nat) : RunsUntouched fuel := by
  induction fuel with
  | zero =>
    intro c exit m ex hc h
    cases h
  | succ fuel ih =>
    intro c exit m ex hc h
    obtain hstep | ⟨next, after, hstep, hrest⟩ := run_succ h
    · exact step_untouched ih hc hstep
    · have hreaches : Reaches c ⟨c.context, next, after⟩ := .single (.next hstep)
      have hfirst := step_untouched ih hc hstep
      have hothers : Untouched (MayAppear ⟨c.context, next, after⟩) after.world ex.world :=
        ih (c := ⟨c.context, next, after⟩) (hreaches.restricted hc) hrest
      -- What the steps to come allow is allowed here as well, for they are reached from here.
      exact hfirst.trans (hothers.mono fun a ha => ha.of_reaches hreaches (.inr rfl))

/-- Read-only frames write nothing, however they exit, and so do the frames below them, which are
read-only as well. Accounts that were there are left as they are. Others can appear, empty, at the
targets of calls that send no value, and at the address of the frame if it has no account. -/
theorem readOnly_frames_write_nothing {fuel : Nat} {c : Configuration} {exit : Exit} {m : Machine}
    {ex : Executor} (hs : IsStandard c.executor.instructions)
    (hreadOnly : c.executor.frame.readOnly = true)
    (h : run fuel c.context c.machine c.executor = some (exit, m, ex)) :
    (∀ a, ex.world.nonce a = c.executor.world.nonce a ∧
      ex.world.balance a = c.executor.world.balance a ∧
      ex.world.code a = c.executor.world.code a ∧
      ∀ slot, ex.world.storage a slot = c.executor.world.storage a slot) ∧
    ex.world.logs = c.executor.world.logs ∧ ex.world.marked = c.executor.world.marked ∧
    (∀ a account, c.executor.world.account? a = some account →
      ex.world.account? a = some account) ∧
    (∀ a account, c.executor.world.account? a = none → ex.world.account? a = some account →
      account = .empty ∧ (CalledWithoutValue c a ∨ a = c.context.address)) ∧
    (∀ below, Reaches c below → below.executor.frame.readOnly = true) ∧
    ∀ below task order ready entered, Reaches c below → Orders below task order ready →
      Enters ready order entered → entered.frame.readOnly = true := by
  have hc : Restricted c.executor := ⟨hs, hreadOnly⟩
  have huntouched := run_untouched fuel hc h
  refine ⟨?_, ?_, huntouched.marked, huntouched.present, huntouched.absent, ?_, ?_⟩
  · intro a
    have hview := huntouched.view a
    simp only [World.nonce, World.balance, World.code, World.storage, hview, implies_true,
      and_self]
  · rw [World.logs, World.logs, huntouched.trail]
  · intro below hreaches
    exact (hreaches.restricted hc).readOnly
  · intro below task order ready entered hreaches horders henters
    exact (henters.restricted (hreaches.restricted hc) horders).readOnly

/-- A read-only frame without an account of its own, about to call one that has no code. -/
def unownedConfiguration : Configuration :=
  let accounts : Std.ExtTreeMap Address Account := Std.ExtTreeMap.empty.insert 0xb ⟨1, 0, ∅, #[]⟩
  let ex := (Executor.new (.ofAccounts accounts) .homestead .zero).enter 100000 true
  { context := ⟨0xa, 0xc, 0⟩
    machine := { ex.machine #[0xf1] #[] with stack := ⟨[0, 0xb, 0, 0, 0, 0, 0], 1024⟩ }
    executor := ex }

lemma unowned_standard : IsStandard unownedConfiguration.executor.instructions := by
  have hinstructions : unownedConfiguration.executor.instructions = .homestead := rfl
  exact .inr hinstructions

theorem readOnly_frames_write_nothing_unownedConfiguration :
    ∃ exit m ex, run 9 unownedConfiguration.context unownedConfiguration.machine
        unownedConfiguration.executor = some (exit, m, ex) ∧
      (∀ a, ex.world.balance a = unownedConfiguration.executor.world.balance a) ∧
      ex.world.logs = unownedConfiguration.executor.world.logs ∧
      ex.world.marked = unownedConfiguration.executor.world.marked ∧
      ex.world.account? 0xb = some ⟨1, 0, ∅, #[]⟩ := by
  have hends : (run 9 unownedConfiguration.context unownedConfiguration.machine
      unownedConfiguration.executor).map (fun r => r.1) = some (.succeed .stopped) := by
    decide +kernel
  obtain ⟨⟨exit, m, ex⟩, hrun, -⟩ := Option.map_eq_some_iff.mp hends
  obtain ⟨hread, hlogs, hmarked, hpresent, -⟩ :=
    readOnly_frames_write_nothing unowned_standard rfl hrun
  exact ⟨exit, m, ex, hrun, fun a => (hread a).2.1, hlogs, hmarked,
    hpresent 0xb _ (by decide +kernel)⟩

lemma Leads.opcode {c c' : Configuration} (h : Leads c c') : c.machine.opcode? ≠ none := by
  intro hnone
  cases h with
  | next hstep =>
    have hexit : c.executor.admit c.machine = .error (.succeed .stopped) := by
      unfold Executor.admit
      simp [hnone]
    simp [step, hexit] at hstep
  | nested horders hstarts =>
    obtain ⟨grown, hperforms⟩ := horders.performs
    have hop := (task_of_admitted hperforms.vetted.1).1
    rw [hnone] at hop
    cases hop

lemma unowned_codeless (a : Address) : unownedConfiguration.executor.world.code a = #[] := by
  have haccount : unownedConfiguration.executor.world.account? a =
      if 0xb = a then some ⟨1, 0, ∅, #[]⟩ else none := by
    simp [unownedConfiguration, Executor.enter, Executor.new, World.ofAccounts, World.account?,
      Std.ExtTreeMap.getElem?_insert]
  rw [World.code, view_eq_getD, haccount]
  by_cases ha : 0xb = a
  · rw [if_pos ha]
    rfl
  · rw [if_neg ha]
    rfl

lemma unowned_leads {c : Configuration} (h : Leads unownedConfiguration c) :
    c.machine.opcode? = none := by
  cases h with
  | @next fuel m ex hstep =>
    have hends : (step (run 0) unownedConfiguration.context unownedConfiguration.machine
        unownedConfiguration.executor).map (fun p => (Progress.machine p).opcode?) = some none := by
      decide +kernel
    obtain ⟨p, hp, hopcode⟩ := Option.map_eq_some_iff.mp hends
    -- The step enters no frame that runs, so any allowance gives what none gives.
    have hsame := step_covers (run_covers (Nat.zero_le fuel)) hp
    rw [hstep, Option.some.injEq] at hsame
    subst hsame
    exact hopcode
  | @nested task order ready _ horders hstarts =>
    cases horders with
    | call hperforms hinstruction htake =>
      have hcode := hstarts.code
      rw [hperforms.world, unowned_codeless] at hcode
      cases hcode
    | create hperforms hinstruction htake =>
      have hwrites := (hperforms.readOnly unowned_standard rfl).1
      rw [hinstruction] at hwrites
      cases hwrites

lemma unowned_notCalled : ¬CalledWithoutValue unownedConfiguration 0xa := by
  rintro ⟨caller, task, o, ready, hreaches, horders, haddress, -⟩
  obtain rfl | ⟨next, hleads, hrest⟩ := hreaches.cases_head
  · cases horders with
    | @call grown taken _ scheme request hperforms hinstruction htake =>
      have hvetted := hperforms.vetted.1
      have hop := (task_of_admitted hvetted).1
      rw [show unownedConfiguration.machine.opcode? = some .call by decide +kernel,
        Option.some.injEq] at hop
      have hscheme := (task_of_standard unowned_standard hvetted).2.1
      rw [hinstruction, ← hop] at hscheme
      cases hscheme
      obtain ⟨w, hpeek, htarget⟩ := (takeCall_operands htake).2.1
      rw [hperforms.vetted.2] at hpeek
      cases hpeek
      rw [Context.forCall, htarget] at haddress
      have hsame : Word.toAddress 0xb = (0xa : Address) := haddress
      exact absurd hsame (by decide)
  · have hopcode := unowned_leads hleads
    obtain rfl | ⟨later, hlater, -⟩ := hrest.cases_head
    · obtain ⟨grown, hperforms⟩ := horders.performs
      have hop := (task_of_admitted hperforms.vetted.1).1
      rw [hopcode] at hop
      cases hop
    · exact hlater.opcode hopcode

theorem readOnly_frame_appears :
    IsStandard unownedConfiguration.executor.instructions ∧
    unownedConfiguration.executor.frame.readOnly = true ∧
    (∃ exit m ex, run 9 unownedConfiguration.context unownedConfiguration.machine
        unownedConfiguration.executor = some (exit, m, ex) ∧
      unownedConfiguration.executor.world.account? 0xa = none ∧
      ex.world.account? 0xa = some .empty) ∧
    ¬CalledWithoutValue unownedConfiguration 0xa := by
  refine ⟨unowned_standard, rfl, ?_, unowned_notCalled⟩
  have hends : (run 9 unownedConfiguration.context unownedConfiguration.machine
      unownedConfiguration.executor).map (fun r => r.2.2.world.account? 0xa) =
        some (some .empty) := by decide +kernel
  obtain ⟨⟨exit, m, ex⟩, hrun, happears⟩ := Option.map_eq_some_iff.mp hends
  exact ⟨exit, m, ex, hrun, by decide +kernel, happears⟩

end ContractMachine.Proofs
