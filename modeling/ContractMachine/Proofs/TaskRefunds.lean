import ContractMachine.Proofs.ExecutionSteps

/-!
# What a task is refunded

A frame owes a refund for every slot that it clears and for every account that it marks first. It
is counted when the task is charged for, before the slot or the mark is written. The two agree for
a task that does not fault.
-/

namespace ContractMachine.Proofs

/-- The refund that the frame owes so far. -/
def owed (ex : Executor) : Int := ex.frame.meter.refundedGas

/-- The step replaces a word other than zero by zero in a slot of storage. -/
def Configuration.clears (c : Configuration) : Bool :=
  match c.performance? with
  | none => false
  | some (task, grown, ready) =>
    match task.operation.behaviour, Machine.takeStore grown with
    | .sstore, (.ok (slot, value), _) =>
      ready.world.storage c.context.address slot != 0 && value == 0
    | _, _ => false

/-- From `ex` to `ex'` the frame comes to owe what `count` cleared slots and all new marks give. -/
structure Tallies (count : Nat) (ex ex' : Executor) : Prop where
  marks : ex.world.marked.size ≤ ex'.world.marked.size
  refund : owed ex' = min Quantity.signedMax
    (owed ex + 24000 * (ex'.world.marked.size - ex.world.marked.size : Int) + 15000 * count)

/-- What is owed is within the bounds of its counter. -/
structure InRange (ex : Executor) : Prop where
  nonneg : 0 ≤ owed ex
  le_max : owed ex ≤ Quantity.signedMax

/-- A standard instruction set under the gas constants of a fork. -/
structure Regular (ex : Executor) : Prop where
  standard : IsStandard ex.instructions
  priced : ForkPriced ex.rules

lemma Regular.keeps {ex ex' : Executor} (hex : Regular ex) (h : Keeps ex ex') : Regular ex' := by
  constructor
  · rw [h.instructions]
    exact hex.standard
  · rw [h.rules]
    exact hex.priced

@[simp] lemma owed_emit (ex : Executor) (listener : Listener) (event : Event) :
    owed (ex.emit listener event) = owed ex := by
  rw [owed, owed, emit_frame]

lemma InRange.of_zero {ex : Executor} (h : owed ex = 0) : InRange ex := by
  have hmax : (0 : Int) ≤ Quantity.signedMax := by decide
  constructor <;> omega

lemma InRange.emit {ex : Executor} (hex : InRange ex) (listener : Listener) (event : Event) :
    InRange (ex.emit listener event) := by
  constructor <;> rw [owed_emit]
  · exact hex.nonneg
  · exact hex.le_max

namespace Tallies

variable {count count' : Nat} {ex mid ex' : Executor}

theorem trans (h : Tallies count ex mid) (h' : Tallies count' mid ex') :
    Tallies (count + count') ex ex' where
  marks := Nat.le_trans h.marks h'.marks
  refund := by
    -- The counter is at its bound after both if it is after the first, as marks are only added.
    have hmarks' := h'.marks
    rw [h'.refund, h.refund]
    push_cast
    omega

theorem inRange (h : Tallies count ex ex') (hex : InRange ex) : InRange ex' := by
  have hmarks := h.marks
  have hrefund := h.refund
  have hnonneg := hex.nonneg
  have hmax := hex.le_max
  constructor <;> omega

theorem of_owed (hmarked : ex'.world.marked = ex.world.marked)
    (h : owed ex' = min Quantity.signedMax (owed ex + 15000 * count)) : Tallies count ex ex' := by
  refine ⟨Nat.le_of_eq (by rw [hmarked]), ?_⟩
  rw [hmarked, h]
  omega

theorem of_same (hex : InRange ex) (hmarked : ex'.world.marked = ex.world.marked)
    (h : owed ex' = owed ex) : Tallies 0 ex ex' := by
  have hmax := hex.le_max
  refine of_owed hmarked ?_
  rw [h]
  omega

theorem refl (hex : InRange ex) : Tallies 0 ex ex := of_same hex rfl rfl

theorem emit (h : Tallies count ex ex') (listener : Listener) (event : Event) :
    Tallies count ex (ex'.emit listener event) where
  marks := by
    rw [emit_world]
    exact h.marks
  refund := by
    rw [owed_emit, emit_world]
    exact h.refund

end Tallies

lemma signedSaturatingAdd_eq {a b : Int} (ha : 0 ≤ a) (hb : 0 ≤ b) :
    Quantity.signedSaturatingAdd a b = min Quantity.signedMax (a + b) := by
  unfold Quantity.signedSaturatingAdd Quantity.signedMin
  split
  · omega
  · split <;> omega

/-- What an entry adds to the refund. -/
def refundOf (rules : Rules) : Entry → Int
  | .refund amount => amount
  | .priced price _ => price.refund rules
  | .cost _ | .stipend _ | .deposit _ => 0

lemma record_owed {e : Entry} {ex ex' : Executor} (hex : InRange ex)
    (he : 0 ≤ refundOf ex.rules e) (h : Executor.record e ex = (.ok (), ex')) :
    owed ex' = min Quantity.signedMax (owed ex + refundOf ex.rules e) := by
  have hmax := hex.le_max
  have hnonneg := hex.nonneg
  rw [record_eq, Prod.mk.injEq] at h
  obtain ⟨hresult, rfl⟩ := h
  obtain ⟨l, hl, l', hmeter, hbooked⟩ := record_booked (Prod.ext hresult rfl)
  have hbefore : owed ex = l.refundedGas := by simp only [owed, Meter.refundedGas, hl]
  have hafter : (ex.frame.meter.record ex.rules e).2.refundedGas = l'.refundedGas := by
    simp only [Meter.refundedGas, hmeter]
  show (ex.frame.meter.record ex.rules e).2.refundedGas = _
  rw [hafter, hbefore]
  rw [hbefore] at hmax hnonneg
  cases hbooked with
  | cost hle | stipend amount | deposit hle =>
    simp only [refundOf]
    omega
  | refund amount => exact signedSaturatingAdd_eq hnonneg he
  | priced hbill hle hforward =>
    rw [(bill_ok hbill).2.2]
    exact signedSaturatingAdd_eq hnonneg he

/-- Only what refunds gas changes what is owed, and nothing does that is refused. -/
lemma record_owed_same {e : Entry} {ex : Executor} (hex : InRange ex)
    (he : refundOf ex.rules e = 0) : owed (Executor.record e ex).2 = owed ex := by
  have hmax := hex.le_max
  cases h : Executor.record e ex with
  | mk result ex' =>
    cases result with
    | ok u =>
      rw [record_owed hex (by omega) h]
      omega
    | error f =>
      rw [record_eq, Prod.mk.injEq] at h
      obtain ⟨hresult, rfl⟩ := h
      exact congrArg Meter.refundedGas (record_refused (Prod.ext hresult rfl))

lemma record_tallies {e : Entry} {ex : Executor} (hex : InRange ex)
    (he : refundOf ex.rules e = 0) : Tallies 0 ex (Executor.record e ex).2 :=
  .of_same hex rfl (record_owed_same hex he)

lemma pay_tallies {order : Order} {ex paid : Executor} {result : Except Fault Unit}
    (hex : InRange ex) (h : order.pay ex = (result, paid)) : Tallies 0 ex paid := by
  have hannounced : InRange (ex.emit .executor (order.announcement ex)) := hex.emit _ _
  have hpaid := record_tallies (e := .cost (order.gas ex)) hannounced rfl
  unfold Order.pay at h
  rw [h] at hpaid
  exact ((Tallies.refl hex).emit .executor (order.announcement ex)).trans hpaid

/-- What the price of an instruction refunds, with its operands on the stack. -/
def due (ex : Executor) (address : Address) (stack : Stack) : Instruction → Int
  | .sstore =>
    match stack.peek 0, stack.peek 1 with
    | .ok slot, .ok value =>
      if ex.world.storage address slot ≠ 0 ∧ value = 0 then 15000 else 0
    | _, _ => 0
  | .selfDestruct => if ex.world.isMarked address then 0 else 24000
  | _ => 0

lemma due_nonneg (ex : Executor) (address : Address) (stack : Stack) (i : Instruction) :
    0 ≤ due ex address stack i := by
  unfold due
  repeat' split
  all_goals decide

lemma ForkPriced.sstoreClearRefund {rules : Rules} (h : ForkPriced rules) :
    rules.sstoreClearRefund = 15000 := by
  obtain ⟨fork, hrules⟩ := h
  rw [hrules]
  cases fork <;> rfl

lemma due_of_static {i : Instruction} {cost : Nat} (h : i.staticCost? = some cost) (ex : Executor)
    (address : Address) (stack : Stack) : due ex address stack i = 0 := by
  cases i with
  | sstore | selfDestruct => cases h
  | _ => rfl

lemma price_due {ex : Executor} (hr : ForkPriced ex.rules) {op : Opcode} {i : Instruction}
    (hop : op.instruction? = some i) {address : Address} {stack : Stack} {price : Price}
    (hprice : ex.price op address stack = .ok price) :
    price.refund ex.rules = due ex address stack i := by
  simp only [Executor.price, hop] at hprice
  cases i with
  | sstore =>
    obtain ⟨slot, hslot, hk⟩ := peek_bind_ok hprice
    obtain ⟨value, hvalue, hk⟩ := peek_bind_ok hk
    cases hk
    simp only [Price.refund, Gas.sstoreRefund, due, hslot, hvalue, hr.sstoreClearRefund]
  | selfDestruct =>
    cases hprice
    rfl
  | sha3 | callDataCopy | codeCopy | extCodeCopy | log =>
    obtain ⟨length, -, hk⟩ := peek_bind_ok hprice
    cases hk
    rfl
  | call scheme =>
    cases scheme with
    | call =>
      obtain ⟨value, -, hk⟩ := peek_bind_ok hprice
      obtain ⟨gas, -, hk⟩ := peek_bind_ok hk
      obtain ⟨target, -, hk⟩ := peek_bind_ok hk
      cases hk
      rfl
    | callCode =>
      obtain ⟨value, -, hk⟩ := peek_bind_ok hprice
      obtain ⟨gas, -, hk⟩ := peek_bind_ok hk
      cases hk
      rfl
    | delegateCall =>
      cases hfork : ex.rules.fork with
      | frontier =>
        simp only [hfork, Except.ok.injEq] at hprice
        subst hprice
        rfl
      | homestead =>
        simp only [hfork] at hprice
        obtain ⟨gas, -, hk⟩ := peek_bind_ok hprice
        cases hk
        rfl
  | binary op' =>
    cases op' with
    | exp =>
      obtain ⟨power, -, hk⟩ := peek_bind_ok hprice
      cases hk
      rfl
    | _ =>
      cases hprice
      rfl
  | _ =>
    cases hprice
    rfl

/-- What a step is charged for refunds what its task is due, before the task is performed. -/
lemma Performs.owed {c : Configuration} {task : Task} {grown : Machine} {ready : Executor}
    (hc : Regular c.executor) (hrange : InRange c.executor) (h : Performs c task grown ready) :
    Proofs.owed ready = min Quantity.signedMax (Proofs.owed c.executor +
      due c.executor c.context.address c.machine.stack task.operation.behaviour) := by
  have hop := (task_of_standard hc.standard h.vetted.1).2.1
  cases h with
  | intro hvetted hcharge hgrow =>
    rw [owed_emit]
    obtain ⟨f, hrefused⟩ | ⟨e, hrecord, he⟩ := charge_cases task.op c.context.address
      c.machine.stack task.memoryEnd c.executor
    · rw [hrefused] at hcharge
      cases hcharge
    · rw [hrecord] at hcharge
      have hdue : refundOf c.executor.rules e =
          due c.executor c.context.address c.machine.stack task.operation.behaviour := by
        obtain ⟨cost, hstatic, rfl⟩ | ⟨price, hprice, rfl⟩ := he
        · rw [Opcode.staticCost?, hop, Option.bind_some] at hstatic
          exact (due_of_static hstatic _ _ _).symm
        · exact price_due hc.priced hop hprice
      have hnonneg := due_nonneg c.executor c.context.address c.machine.stack
        task.operation.behaviour
      rw [← hdue] at hnonneg ⊢
      exact record_owed hrange hnonneg hcharge

lemma takeStore_operands {m taken : Machine} {slot value : Word}
    (h : Machine.takeStore m = (.ok (slot, value), taken)) :
    m.stack.peek 0 = .ok slot ∧ m.stack.peek 1 = .ok value := by
  obtain ⟨first, m1, hfirst, h⟩ := bind_ok h
  obtain ⟨second, m2, hsecond, h⟩ := bind_ok h
  cases h
  exact ⟨by simp [Stack.peek, pop_ok hfirst], by simp [Stack.peek, pop_ok hfirst, pop_ok hsecond]⟩

lemma Performs.clears {c : Configuration} {task : Task} {grown taken : Machine} {ready : Executor}
    {slot value : Word} (h : Performs c task grown ready)
    (hinstruction : task.operation.behaviour = .sstore)
    (htake : Machine.takeStore grown = (.ok (slot, value), taken)) :
    due c.executor c.context.address c.machine.stack .sstore = if c.clears then 15000 else 0 := by
  obtain ⟨hslot, hvalue⟩ := takeStore_operands htake
  rw [h.vetted.2] at hslot hvalue
  have hclears : c.clears =
      (c.executor.world.storage c.context.address slot != 0 && value == 0) := by
    simp only [Configuration.clears, performance?_iff.mpr h, hinstruction, htake, h.world]
  simp only [due, hslot, hvalue, hclears, Bool.and_eq_true, bne_iff_ne, beq_iff_eq]

lemma Performs.not_clears {c : Configuration} {task : Task} {grown : Machine} {ready : Executor}
    (h : Performs c task grown ready) (hinstruction : task.operation.behaviour ≠ .sstore) :
    c.clears = false := by
  simp only [Configuration.clears, performance?_iff.mpr h]
  split
  · next hsstore _ => exact absurd hsstore hinstruction
  · rfl

lemma storage_setStorage (w : World) (a : Address) (slot : Word) :
    (w.setStorage a slot 0).storage a slot = 0 := by
  rw [World.storage, view_eq_getD, setStorage_account?, if_pos rfl, Option.getD_some]
  simp [Account.load, Account.store]

/-- A step that clears a slot leaves zero in it. -/
theorem clears_storage {runner : Runner} {c : Configuration} {p : Progress}
    (h : step runner c.context c.machine c.executor = some p) (hclears : c.clears = true) :
    ∃ slot, c.executor.world.storage c.context.address slot ≠ 0 ∧
      (Progress.executor p).world.storage c.context.address slot = 0 := by
  unfold Configuration.clears at hclears
  split at hclears
  · cases hclears
  · next task grown ready hperformance =>
    have hperforms := performance?_iff.mp hperformance
    split at hclears
    · next slot value taken hinstruction htake =>
      rw [Bool.and_eq_true, bne_iff_ne, beq_iff_eq, hperforms.world] at hclears
      obtain ⟨hbefore, rfl⟩ := hclears
      obtain ⟨control, done, after, event, hperform, hp, -⟩ := hperforms.performed h
      rw [hinstruction] at hperform
      simp only [perform, takeThen, htake, Option.some.injEq, Prod.mk.injEq] at hperform
      obtain ⟨-, -, rfl⟩ := hperform
      refine ⟨slot, hbefore, ?_⟩
      rw [hp, emit_world]
      exact storage_setStorage _ _ _
    · cases hclears

lemma transfer_marked {t : Transfer} {ex moved : Executor}
    (h : Executor.transfer t ex = (.ok (), moved)) : moved.world.marked = ex.world.marked := by
  obtain ⟨-, rfl⟩ := transfer_moved h
  exact (setBalance_marked _ _ _).trans (setBalance_marked _ _ _)

lemma Prepares.marked {ex entered started : Executor} {order : Order}
    (h : Prepares ex order entered started) : started.world.marked = entered.world.marked := by
  cases h with
  | @call o _ _ hdepth htransfer =>
    refine Eq.trans ?_ (ensureAccount_marked o.context.address entered)
    cases ht : o.transfer with
    | none =>
      rw [ht] at htransfer
      cases htransfer
      rfl
    | some t =>
      rw [ht] at htransfer
      exact transfer_marked htransfer
  | create hfree htransfer =>
    have hmoved := transfer_marked htransfer
    exact hmoved

/-- Destroying an account marks it and does nothing else to the marks. -/
lemma markDestroyed_marked (address target : Address) (ex : Executor) :
    (Executor.markDestroyed address target ex).2.world.marked =
      ex.world.marked.insert address := by
  unfold Executor.markDestroyed
  obtain ⟨hshort, -⟩ | ⟨-, h⟩ := transfer_cases ⟨address, target, ex.world.balance address⟩
    (ex.emit .executor (.selfDestruct address target (ex.world.balance address)))
  · simp at hshort
  · have hmoved := transfer_marked h
    rw [emit_world] at hmoved
    simp only [h]
    exact congrArg (·.insert address) hmoved

lemma perform_selfDestruct {runner : Runner} {context : Context} {m done : Machine}
    {ex after : Executor} {control : Control}
    (h : perform runner .selfDestruct context m ex = some (control, done, after))
    (hcontrol : ∀ f, control ≠ .fault f) :
    ∃ target, after = (Executor.markDestroyed context.address target ex).2 := by
  simp only [perform] at h
  obtain ⟨f, -, hfault, -⟩ | ⟨target, taken, -, hk⟩ := takeThen_cases h
  · exact absurd hfault (hcontrol f)
  · obtain ⟨marked, hmarked⟩ := markDestroyed_ok context.address target.toAddress ex
    simp only [hmarked, Option.some.injEq, Prod.mk.injEq] at hk
    refine ⟨target.toAddress, ?_⟩
    rw [hmarked]
    exact hk.2.2.symm

lemma perform_sstore {runner : Runner} {context : Context} {m done : Machine}
    {ex after : Executor} {control : Control}
    (h : perform runner .sstore context m ex = some (control, done, after))
    (hcontrol : ∀ f, control ≠ .fault f) :
    ∃ slot value taken, Machine.takeStore m = (.ok (slot, value), taken) := by
  simp only [perform] at h
  obtain ⟨f, -, hfault, -⟩ | ⟨⟨slot, value⟩, taken, htake, -⟩ := takeThen_cases h
  · exact absurd hfault (hcontrol f)
  · exact ⟨slot, value, taken, htake⟩

/-- An instruction that orders nothing leaves the meter alone, and marks at most its own
account. -/
lemma perform_unordered {runner : Runner} {c : Configuration} {task : Task} {grown done : Machine}
    {ready after : Executor} {control : Control} (hperforms : Performs c task grown ready)
    (hperform : perform runner task.operation.behaviour c.context grown ready =
      some (control, done, after)) (hcontrol : ∀ f, control ≠ .fault f) (horder : c.order? = none) :
    after.frame = ready.frame ∧ after.world.marked =
      if task.operation.behaviour = .selfDestruct then
        ready.world.marked.insert c.context.address
      else ready.world.marked := by
  have hnone {order : Order} (horders : Orders c task order ready) : False := by
    rw [order?_iff.mpr ⟨task, horders⟩] at horder
    cases horder
  generalize hinstruction : task.operation.behaviour = i at hperform
  by_cases hi : i = .selfDestruct
  · subst hi
    obtain ⟨target, rfl⟩ := perform_selfDestruct hperform hcontrol
    rw [if_pos rfl]
    exact ⟨markDestroyed_frame _ _ _, markDestroyed_marked _ _ _⟩
  · rw [if_neg hi]
    cases perform_effect hperform with
    | machine i => exact ⟨rfl, rfl⟩
    | loaded event => exact ⟨emit_frame _ _ _, by rw [emit_world]⟩
    | stored event slot value =>
      refine ⟨emit_frame ready .runtime event, ?_⟩
      show ((ready.emit .runtime event).world.ensure c.context.address).marked = _
      rw [ensure_marked, emit_world]
    | logged topics data => exact ⟨rfl, rfl⟩
    | created hcreate htake => exact (hnone (.create hperforms hinstruction htake)).elim
    | called htake hcall => exact (hnone (.call hperforms hinstruction htake)).elim
    | destroyed target => exact absurd rfl hi

end ContractMachine.Proofs
