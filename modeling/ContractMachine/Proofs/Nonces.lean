import ContractMachine.Proofs.Applications
import Mathlib.Data.List.Chain

/-!
# Nonces

The nonce of an account counts the messages that it has sent and the creations that it has started
in kept frames, whether or not these came to anything. It is never lowered and never wraps, so that
a message cannot be replayed and no address is given to two contracts, unless the account has been
removed in between.
-/

namespace ContractMachine.Proofs

lemma ensureAccount_nonce (ex : Executor) (a x : Address) :
    (ex.ensureAccount a).world.nonce x = ex.world.nonce x := by
  rw [World.nonce, ensureAccount_view]
  rfl

lemma transfer_nonce {t : Transfer} {ex moved : Executor}
    (h : Executor.transfer t ex = (.ok (), moved)) (x : Address) :
    moved.world.nonce x = ex.world.nonce x := by
  obtain ⟨-, rfl⟩ := transfer_moved h
  exact (setBalance_nonce _ _ _ _).trans (setBalance_nonce _ _ _ _)

lemma Prepares.nonce {ex entered started : Executor} {order : Order}
    (h : Prepares ex order entered started) (x : Address) :
    started.world.nonce x = entered.world.nonce x := by
  cases h with
  | @call o _ _ hdepth htransfer =>
    refine Eq.trans ?_ (ensureAccount_nonce entered o.context.address x)
    cases ht : o.transfer with
    | none =>
      rw [ht] at htransfer
      cases htransfer
      rfl
    | some t =>
      rw [ht] at htransfer
      exact transfer_nonce htransfer x
  | create hfree htransfer =>
    exact (transfer_nonce htransfer x).trans (createAccount_nonce _ _ _)

/-- Whether the order is a creation by `x`. -/
def Order.isCreationBy (x : Address) : Order → Bool
  | call _ => false
  | create o => o.caller == x

/-- A creation that is accepted raises the nonce of its creator by one. -/
lemma Enters.nonce {ex entered : Executor} {order : Order} (h : Enters ex order entered)
    (x : Address) : (entered.world.nonce x).toNat =
      (ex.world.nonce x).toNat + if order.isCreationBy x then 1 else 0 := by
  rw [h.world]
  cases h with
  | call => rfl
  | @create o _ haccepted hpay =>
    simp only [Order.entryWorld, setNonce_nonce, Order.isCreationBy, beq_iff_eq]
    by_cases hx : o.caller = x
    · rw [if_pos hx, if_pos hx, ← hx, toNat_succ (nonce_ne_of_creationFault haccepted)]
    · rw [if_neg hx, if_neg hx, Nat.add_zero]

lemma WorldChange.nonce_le {self : Address} {w w' : World} (h : WorldChange self w w')
    (x : Address) : (w.nonce x).toNat ≤ (w'.nonce x).toNat := by
  cases h with
  | store slot value => rw [setStorage_nonce]
  | log topics data => exact Nat.le_refl _
  | raiseNonce hmax =>
    rw [setNonce_nonce]
    by_cases hx : self = x
    · rw [if_pos hx, ← hx, toNat_succ hmax]
      exact Nat.le_succ _
    · rw [if_neg hx]
  | materialize habsent => rw [createAccount_nonce]
  | found hnonce hcode => rw [createAccount_nonce]
  | move t hfunds => rw [World.addBalance, World.subBalance, setBalance_nonce, setBalance_nonce]
  | destroy target =>
    rw [selfDestruct_nonce, World.addBalance, World.subBalance, setBalance_nonce, setBalance_nonce]
  | deposit created code => rw [setCode_nonce]

/-- Whatever a frame does, and whatever is taken back in it, no nonce is lowered. -/
theorem Evolves.nonce_le {self : Address} {ex ex' : Executor} (h : Evolves self ex ex')
    (x : Address) : (ex.world.nonce x).toNat ≤ (ex'.world.nonce x).toNat := by
  induction h with
  | refl self ex => exact Nat.le_refl _
  | trans _ _ ih ih' => exact Nat.le_trans ih ih'
  | record self ex e => exact Nat.le_refl _
  | emit self ex listener event => rw [emit_world]
  | change h => exact h.nonce_le x
  | nested closing h ih =>
    rw [close_world closing h.keeps, closedWorld]
    by_cases hclosing : closing = .commit
    · rw [if_pos hclosing]
      exact ih
    · rw [if_neg hclosing]

/-- Whether the step is a creation by `x` that passes the checks of depth, balance and nonce. -/
def Configuration.createsAs (x : Address) (c : Configuration) : Bool :=
  c.context.address == x &&
    match c.order? with
    | some (.create o, ready) => (ready.creationFault o.caller o.value).isNone
    | _ => false

def noncePart (x : Address) : Part Nat where
  value w := (w.nonce x).toNat
  own c nonce := if c.createsAs x then nonce + 1 else nonce

lemma Performs.working {c : Configuration} {task : Task} {grown : Machine} {ready : Executor}
    (h : Performs c task grown ready) : ready.frame.meter.hasFailed = false := by
  cases h with
  | intro hvetted hcharge hgrow =>
    rw [emit_frame]
    obtain ⟨f, hrefused⟩ | ⟨e, hrecord, -⟩ := charge_cases task.op c.context.address
      c.machine.stack task.memoryEnd c.executor
    · rw [hrefused] at hcharge
      cases hcharge
    · rw [hrecord] at hcharge
      exact (record_ok_working hcharge).2

lemma perform_unordered_nonce {runner : Runner} {c : Configuration} {task : Task}
    {grown done : Machine} {ready after : Executor} {control : Control}
    (hperforms : Performs c task grown ready)
    (hperform : perform runner task.operation.behaviour c.context grown ready =
      some (control, done, after)) (horder : c.order? = none) (x : Address) :
    after.world.nonce x = ready.world.nonce x := by
  have hnone {order : Order} (horders : Orders c task order ready) : False := by
    rw [order?_iff.mpr ⟨task, horders⟩] at horder
    cases horder
  generalize hinstruction : task.operation.behaviour = i at hperform
  cases perform_effect hperform with
  | machine i => rfl
  | loaded event => rw [emit_world]
  | stored event slot value =>
    show ((ready.emit .runtime event).world.setStorage _ _ _).nonce x = _
    rw [setStorage_nonce, emit_world]
  | logged topics data => rfl
  | created hcreate htake => exact (hnone (.create hperforms hinstruction htake)).elim
  | called htake hcall => exact (hnone (.call hperforms hinstruction htake)).elim
  | destroyed target =>
    unfold Executor.markDestroyed
    obtain ⟨hshort, -⟩ | ⟨-, hmoved⟩ := transfer_cases
      ⟨c.context.address, target, ready.world.balance c.context.address⟩
      (ready.emit .executor (.selfDestruct c.context.address target
        (ready.world.balance c.context.address)))
    · simp at hshort
    · have hnonce := transfer_nonce hmoved x
      rw [emit_world] at hnonce
      simp only [hmoved]
      exact (selfDestruct_nonce _ _ _).trans hnonce

lemma Orders.createsAs {c : Configuration} {task : Task} {order : Order} {ready : Executor}
    (h : Orders c task order ready) (x : Address) :
    c.createsAs x = (order.isCreationBy x && match order with
      | .create o => (ready.creationFault o.caller o.value).isNone
      | .call _ => false) := by
  have horder := order?_iff.mpr ⟨task, h⟩
  unfold Configuration.createsAs
  rw [horder]
  cases h with
  | call => simp [Order.isCreationBy]
  | create => rfl

lemma noncePart_lawful (x : Address) : (noncePart x).Lawful where
  idle {c v} hnone := by
    have horder : c.order? = none := by rw [Configuration.order?, hnone]
    simp [noncePart, Configuration.createsAs, horder]
  unordered {runner c task grown ready control done after} hperforms hperform _ horder := by
    simp only [noncePart, Configuration.createsAs, horder, Bool.and_false, Bool.false_eq_true,
      if_false, perform_unordered_nonce hperforms hperform horder]
  entered {c task order ready entered} horders henters := by
    have hcreates : c.createsAs x = order.isCreationBy x := by
      rw [horders.createsAs]
      cases henters with
      | call hpay => rfl
      | create haccepted hpay => simp [haccepted]
    simp only [noncePart, henters.nonce, hcreates]
    split <;> rfl
  refused {c task order ready after} horders hrefused := by
    have hcreates : c.createsAs x = false := by
      rw [horders.createsAs]
      cases hrefused with
      | unaccepted hfault => simp [hfault]
      | unpaid hpay =>
        obtain ⟨grown, hperforms⟩ := horders.performs
        exact absurd hpay (pay_ne_error hperforms.working)
    simp only [noncePart, hcreates, Bool.false_eq_true, if_false]
  prepared hprepares := congrArg UInt64.toNat (hprepares.nonce x)
  coded w a code := congrArg UInt64.toNat (setCode_nonce w a x code)

/-- The creations of an account find its nonces one after the other. -/
lemma Chronicle.nonces {x : Address} {u v : Nat} {steps : List Configuration}
    (h : Chronicle (noncePart x) u steps v) :
    (steps.filter (Configuration.createsAs x)).map (fun c => (c.executor.world.nonce x).toNat) =
        List.range' u (steps.countP (Configuration.createsAs x)) ∧
      v = u + steps.countP (Configuration.createsAs x) := by
  induction h with
  | nil => exact ⟨rfl, rfl⟩
  | @cons c rest v h ih =>
    obtain ⟨hnonces, hend⟩ := ih
    have hfound : (noncePart x).value c.executor.world = (c.executor.world.nonce x).toNat := rfl
    by_cases hcreates : c.createsAs x = true
    · simp only [noncePart, hcreates, if_true] at hnonces hend
      rw [List.filter_cons_of_pos hcreates, List.countP_cons_of_pos hcreates, List.map_cons,
        hnonces, hfound, List.range'_succ]
      exact ⟨rfl, by omega⟩
    · simp only [noncePart, hcreates, Bool.false_eq_true, if_false] at hnonces hend
      rw [List.filter_cons_of_neg hcreates, List.countP_cons_of_neg hcreates, hfound]
      exact ⟨hnonces, hend⟩

namespace Application

variable {a b : Application} {w : World} {x : Address}

/-- How often the message, if it is accepted, raises the nonce of `x`. -/
def raises (a : Application) (x : Address) : Nat :=
  (if x = a.message.sender then 1 else 0) + a.kept.countP (Configuration.createsAs x)

/-- The nonces that creations by `x` use up, the one that the message itself may order and those in
its kept steps. -/
def creationNonces (a : Application) (x : Address) : List UInt64 :=
  (if a.order.isCreationBy x then [a.before.nonce x] else []) ++
    (a.kept.filter (Configuration.createsAs x)).map fun c => c.executor.world.nonce x

lemma Accepted.entry_nonce (h : a.Accepted) (x : Address) :
    ((a.order.entryWorld a.ready).nonce x).toNat =
      (a.before.nonce x).toNat + if x = a.message.sender then 1 else 0 := by
  have hsame (y : Address) : (accountsReady a.executor a.message).world.nonce y =
      a.before.nonce y := congrArg Account.nonce (accountsReady_view a.executor a.message y)
  rw [order, ready, messageOrder_entryWorld, setNonce_nonce, hsame, hsame]
  by_cases hx : x = a.message.sender
  · obtain ⟨-, hmax, -⟩ := rejection?_eq_none h.rejection?
    rw [if_pos hx.symm, if_pos hx, hx]
    exact toNat_succ hmax
  · rw [if_neg (Ne.symm hx), if_neg hx, Nat.add_zero]

lemma Ends.nonces (h : a.Ends w) (x : Address) :
    (a.kept.filter (Configuration.createsAs x)).map (fun c => (c.executor.world.nonce x).toNat) =
        List.range' ((a.before.nonce x).toNat + if x = a.message.sender then 1 else 0)
          (a.kept.countP (Configuration.createsAs x)) ∧
      (w.nonce x).toNat = (a.before.nonce x).toNat + a.raises x := by
  have hchronicle := h.chronicle (noncePart_lawful x)
  obtain ⟨hnonces, hend⟩ := hchronicle.nonces
  simp only [noncePart, h.1.entry_nonce] at hnonces hend
  exact ⟨hnonces, by rw [hend, raises, Nat.add_assoc]⟩

/-- Settling forgets the nonces of the accounts that it removes, and no others. -/
lemma Ends.settled_nonce (h : a.Ends w) (hx : ¬a.Removes x) : a.after.nonce x = w.nonce x := by
  rw [h.after, settle_nonce]
  by_cases hmarked : w.isMarked x = true
  -- A mark alone removes nothing: the nonce of an absent account was zero before.
  · have habsent : w.account? x = none := by
      refine account?_eq_none ?_
      by_cases hexists : w.exists? x = true
      · exact absurd ⟨w, h, hexists, hmarked⟩ hx
      · simpa using hexists
    rw [if_pos hmarked, World.nonce, view_eq_getD, habsent]
    rfl
  · rw [if_neg hmarked]

lemma Accepted.nonce (h : a.Accepted) (hx : ¬a.Removes x) :
    (a.after.nonce x).toNat = (a.before.nonce x).toNat + a.raises x := by
  obtain ⟨w, hends⟩ := h.ends
  rw [hends.settled_nonce hx]
  exact (hends.nonces x).2

lemma nonce_le (hx : ¬a.Removes x) : (a.before.nonce x).toNat ≤ (a.after.nonce x).toNat := by
  by_cases haccepted : a.Accepted
  · rw [haccepted.nonce hx]
    exact Nat.le_add_right _ _
  · rw [after_of_rejected haccepted]

/-- Messages that do not remove the account, whatever else they do, do not lower its nonce. -/
lemma nonce_le_of_follows {middle : List Application}
    (h : (a :: (middle ++ [b])).IsChain Follows) (hx : ∀ r ∈ middle, ¬r.Removes x) :
    (a.after.nonce x).toNat ≤ (b.before.nonce x).toNat := by
  induction middle generalizing a with
  | nil =>
    have hfollows : Follows a b := List.isChain_pair.mp h
    have hbefore : b.before = a.after := hfollows
    rw [hbefore]
  | cons r middle ih =>
    obtain ⟨hfollows, hrest⟩ := List.isChain_cons_cons.mp h
    have hlater := ih hrest fun r' hr' => hx r' (List.mem_cons_of_mem r hr')
    have hnext := nonce_le (hx r List.mem_cons_self)
    have hbefore : r.before = a.after := hfollows
    rw [hbefore] at hnext
    exact hnext.trans hlater

lemma sender_of_isCreationBy (h : a.order.isCreationBy x = true) : x = a.message.sender := by
  unfold order messageOrder at h
  cases hrecipient : a.message.recipient with
  | none =>
    rw [hrecipient] at h
    exact (beq_iff_eq.mp h).symm
  | some recipient =>
    rw [hrecipient] at h
    cases h

/-- The creations of an account use up nonces that follow one another. -/
lemma Accepted.creationNonces_range (h : a.Accepted) (x : Address) : ∃ first count,
    (a.creationNonces x).map UInt64.toNat = List.range' first count ∧
      (a.before.nonce x).toNat ≤ first ∧
        first + count = (a.before.nonce x).toNat + a.raises x := by
  obtain ⟨w, hends⟩ := h.ends
  obtain ⟨hkept, -⟩ := hends.nonces x
  have hnonces : (a.creationNonces x).map UInt64.toNat =
      (if a.order.isCreationBy x then [a.before.nonce x] else []).map UInt64.toNat ++
        List.range' ((a.before.nonce x).toNat + if x = a.message.sender then 1 else 0)
          (a.kept.countP (Configuration.createsAs x)) := by
    rw [creationNonces, List.map_append, List.map_map]
    exact congrArg _ hkept
  by_cases hcreation : a.order.isCreationBy x = true
  -- The nonce of the creation that the message orders comes right before those of its steps.
  · have hsender := sender_of_isCreationBy hcreation
    rw [if_pos hcreation, if_pos hsender, List.map_singleton, List.singleton_append,
      ← List.range'_succ] at hnonces
    refine ⟨_, _, hnonces, Nat.le_refl _, ?_⟩
    rw [raises, if_pos hsender]
    omega
  · rw [if_neg hcreation, List.map_nil, List.nil_append] at hnonces
    exact ⟨_, _, hnonces, Nat.le_add_right _ _, Nat.add_assoc _ _ _⟩

lemma Accepted.creationNonces_bounds (h : a.Accepted) {nonce : UInt64}
    (hnonce : nonce ∈ a.creationNonces x) : (a.before.nonce x).toNat ≤ nonce.toNat ∧
      nonce.toNat < (a.before.nonce x).toNat + a.raises x := by
  obtain ⟨first, count, hrange, hfirst, hcount⟩ := h.creationNonces_range x
  have hmem := List.mem_map_of_mem (f := UInt64.toNat) hnonce
  rw [hrange, List.mem_range'_1] at hmem
  omega

lemma Accepted.creationNonces_nodup (h : a.Accepted) (x : Address) :
    (a.creationNonces x).Nodup := by
  obtain ⟨first, count, hrange, -⟩ := h.creationNonces_range x
  refine List.Nodup.of_map UInt64.toNat ?_
  rw [hrange]
  exact List.nodup_range'

section Sequences

variable {middle : List Application} (h : (a :: (middle ++ [b])).IsChain Follows) (ha : a.Accepted)
include h ha

lemma Accepted.raises_le (hx : ∀ r ∈ a :: middle, ¬r.Removes x) :
    (a.before.nonce x).toNat + a.raises x ≤ (b.before.nonce x).toNat := by
  rw [← ha.nonce (hx a List.mem_cons_self)]
  exact nonce_le_of_follows h fun r hr => hx r (List.mem_cons_of_mem a hr)

lemma Accepted.not_replayed (hx : ∀ r ∈ a :: middle, ¬r.Removes a.message.sender)
    (hsame : b.message = a.message) (hchecks : a.message.checksNonce = true) : ¬b.Accepted := by
  intro hb
  have hfirst : a.before.nonce a.message.sender = a.message.nonce :=
    (rejection?_eq_none ha.rejection?).1 hchecks
  have hsecond : b.before.nonce b.message.sender = b.message.nonce :=
    (rejection?_eq_none hb.rejection?).1 (hsame ▸ hchecks)
  have hraises : 1 ≤ a.raises a.message.sender := by
    rw [raises, if_pos rfl]
    exact Nat.le_add_right _ _
  have hlater := ha.raises_le h hx
  rw [hsame] at hsecond
  rw [hfirst, hsecond] at hlater
  omega

lemma Accepted.creationNonces_disjoint (hx : ∀ r ∈ a :: middle, ¬r.Removes x) (hb : b.Accepted) :
    (a.creationNonces x).Disjoint (b.creationNonces x) := by
  intro nonce hearlier hlater
  have hbelow := (ha.creationNonces_bounds hearlier).2
  have habove := (hb.creationNonces_bounds hlater).1
  have hnonce := ha.raises_le h hx
  omega

end Sequences

end Application

/-- Wherever an execution comes to, no nonce is lower than it was, also where what it does is taken
back later. -/
lemma Reaches.nonce_le {c c' : Configuration} (h : Reaches c c') (x : Address) :
    (c.executor.world.nonce x).toNat ≤ (c'.executor.world.nonce x).toNat :=
  h.invariant (P := fun ex => (c.executor.world.nonce x).toNat ≤ (ex.world.nonce x).toNat)
    (fun hevolves hle => hle.trans (hevolves.nonce_le x)) (fun _ hle => hle) (Nat.le_refl _)

lemma Application.Accepted.start_nonce {a : Application} {outermost : Configuration}
    (h : a.Accepted) (hstarts : Starts a.ready a.order outermost) (x : Address) :
    (outermost.executor.world.nonce x).toNat =
      (a.before.nonce x).toNat + if x = a.message.sender then 1 else 0 := by
  obtain ⟨-, entered, henters, hprepares⟩ := hstarts.prepared
  rw [hprepares.nonce, henters.world]
  exact h.entry_nonce x

/-- An accepted message raises the nonce of an account by one for its sender, and by one for each
creation by the account in its kept steps that passes the checks, whatever comes of it. So unless
the account is removed in between, a message whose nonce is checked is not accepted again, and no
two creations by the account use up the same nonce. No nonce wraps, not even while it is raised in
a frame that is taken back. -/
theorem nonces_are_never_reused :
    (∀ (a : Application) (x : Address), a.Accepted → ¬a.Removes x →
      (a.after.nonce x).toNat = (a.before.nonce x).toNat +
        (if x = a.message.sender then 1 else 0) + a.kept.countP (Configuration.createsAs x)) ∧
    (∀ applications : List Application, applications.IsChain Application.Follows →
      ∀ a middle b, a :: (middle ++ [b]) <:+: applications → a.Accepted →
        ((∀ r ∈ a :: middle, ¬r.Removes a.message.sender) → b.message = a.message →
          a.message.checksNonce = true → ¬b.Accepted) ∧
        ∀ x, (∀ r ∈ a :: middle, ¬r.Removes x) → b.Accepted →
          (a.creationNonces x).Disjoint (b.creationNonces x)) ∧
    (∀ (a : Application) (x : Address), a.Accepted → (a.creationNonces x).Nodup) ∧
    (∀ (a : Application) (w : World) (x : Address), a.Ends w →
      (w.nonce x).toNat = (a.before.nonce x).toNat + a.raises x) ∧
    (∀ (a : Application) (outermost : Configuration) (x : Address), a.Accepted →
      Starts a.ready a.order outermost → (outermost.executor.world.nonce x).toNat =
        (a.before.nonce x).toNat + if x = a.message.sender then 1 else 0) ∧
    ∀ (c c' : Configuration) (x : Address), Reaches c c' →
      (c.executor.world.nonce x).toNat ≤ (c'.executor.world.nonce x).toNat := by
  refine ⟨?_, ?_, fun _ x h => h.creationNonces_nodup x, fun _ _ x h => (h.nonces x).2,
    fun _ _ x h hstarts => h.start_nonce hstarts x, fun _ _ x h => h.nonce_le x⟩
  · intro a x haccepted hx
    rw [haccepted.nonce hx, Application.raises, Nat.add_assoc]
  · intro applications hchain a middle b hinfix ha
    have hsegment := hchain.infix hinfix
    exact ⟨fun hx hsame hchecks => ha.not_replayed hsegment hx hsame hchecks,
      fun x hx hb => ha.creationNonces_disjoint hsegment hx hb⟩

/-- An account whose code creates a contract. -/
def creatingExecutor : Executor :=
  let accounts : Std.ExtTreeMap Address Account :=
    Std.ExtTreeMap.empty.insert 0xb ⟨0, 0, ∅, #[0x60, 0, 0x60, 0, 0x60, 0, 0xf0]⟩
  .new (.ofAccounts accounts) .homestead .zero

def creatingMessage : Message := ⟨0xa, some 0xb, 0, 0, true, #[], 90000⟩

def creatingSteps : List Configuration :=
  (messageOrder creatingMessage).keptSteps Executor.stepAllowance
    (messageReady (creatingExecutor.ensureAccount 0xa) creatingMessage)

/-- The sender and the creator each have a nonce of one in the end, and the message is not accepted
again. -/
theorem nonces_are_never_reused_creatingExecutor :
    ∃ a : Application, a.executor = creatingExecutor ∧ a.message = creatingMessage ∧
      (a.after.nonce 0xa).toNat = 1 ∧ (a.after.nonce 0xb).toNat = 1 ∧
        ∀ replayed : Application, a.Follows replayed → replayed.message = creatingMessage →
          ¬replayed.Accepted := by
  obtain ⟨hcount, hsequence, -⟩ := nonces_are_never_reused
  have happlied : (creatingExecutor.applyMessage creatingMessage (.ofNat 100000)).map
      (fun applied => (applied.result.toOption.isSome, applied.executor.world.exists? 0xa,
        applied.executor.world.exists? 0xb)) = some (true, true, true) := by decide +kernel
  obtain ⟨applied, happlied, hfacts⟩ := Option.map_eq_some_iff.mp happlied
  obtain ⟨hok, hsender, hcreator⟩ := by simpa using hfacts
  let a : Application := ⟨creatingExecutor, creatingMessage, .ofNat 100000, applied, happlied⟩
  have hkeptSteps : a.kept = creatingSteps := rfl
  have hcreations : creatingSteps.countP (Configuration.createsAs 0xa) = 0 ∧
      creatingSteps.countP (Configuration.createsAs 0xb) = 1 := by decide +kernel
  have haccepted : a.Accepted := by
    unfold Application.Accepted
    cases hresult : applied.result with
    | ok receipt => exact ⟨receipt, rfl⟩
    | error rejection =>
      rw [hresult] at hok
      cases hok
  have hkept {x : Address} (h : a.after.exists? x = true) : ¬a.Removes x := by
    intro hremoves
    rw [hremoves.absent] at h
    cases h
  refine ⟨a, rfl, rfl, ?_, ?_, ?_⟩
  · rw [hcount a 0xa haccepted (hkept hsender), hkeptSteps, hcreations.1]
    rfl
  · rw [hcount a 0xb haccepted (hkept hcreator), hkeptSteps, hcreations.2]
    rfl
  · intro replayed hfollows hmessage
    refine (hsequence [a, replayed] (List.isChain_pair.mpr hfollows) a [] replayed
      (List.infix_refl _) haccepted).1 ?_ hmessage rfl
    intro r hr
    rw [List.mem_singleton.mp hr]
    exact hkept hsender

end ContractMachine.Proofs
