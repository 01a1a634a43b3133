import ContractMachine.Proofs.FailedMessages

/-!
# Frames with more gas

Two executions of different gas stand side by side. Their executors share everything but the limits
of the meters, the frames around, and the trace. What a meter is asked for is compared with the gas
that is left, of which there is more under a higher limit. A frame therefore uses the same gas in
both executions, and so has the one around it once the frame is closed: it gets back what the frame
did not use, out of all that it handed over.
-/

namespace ContractMachine.Proofs

/-- The second meter has counted the same as the first, under a limit that is at least as high. -/
structure Roomier (m m' : Meter) : Prop where
  ledger : ∃ l, m.ledger = some l ∧ m'.ledger = some l
  limit : m.limit ≤ m'.limit
  fits : m'.limit ≤ Quantity.max

lemma Roomier.gas_le {m m' : Meter} (h : Roomier m m') : m.gas ≤ m'.gas := by
  obtain ⟨l, hl, hl'⟩ := h.ledger
  have hlimit := h.limit
  rw [gas_of_ledger hl, gas_of_ledger hl']
  omega

lemma Roomier.gas_fits {m m' : Meter} (h : Roomier m m') : m'.gas ≤ Quantity.max :=
  Nat.le_trans (gas_le_limit m') h.fits

lemma Roomier.totals {m m' : Meter} (h : Roomier m m') :
    m'.totalUsedGas = m.totalUsedGas ∧ m'.refundedGas = m.refundedGas := by
  obtain ⟨l, hl, hl'⟩ := h.ledger
  simp only [Meter.totalUsedGas, Meter.refundedGas, hl, hl']
  exact ⟨trivial, trivial⟩

lemma roomier_new {limit limit' : Nat} (hle : limit ≤ limit') (hfits : limit' ≤ Quantity.max) :
    Roomier (.new limit) (.new limit') :=
  ⟨⟨_, rfl, rfl⟩, hle, hfits⟩

lemma take_roomier {m m' after : Meter} {amount : Nat} (hm : Roomier m m')
    (h : Meter.take amount m = (.ok (), after)) :
    ∃ after', Meter.take amount m' = (.ok (), after') ∧ Roomier after after' := by
  have hgas := hm.gas_le
  obtain ⟨l, hl, hl'⟩ := hm.ledger
  obtain ⟨l₁, hl₁, hle, rfl⟩ := take_booked h
  rw [hl, Option.some.injEq] at hl₁
  subst hl₁
  refine ⟨⟨m'.limit, some { l with usedGas := l.usedGas + amount }⟩, ?_, ⟨_, rfl, rfl⟩, hm.limit,
    hm.fits⟩
  have henough : ¬m'.gas < amount := by omega
  simp only [Meter.take, hl', if_neg henough]

lemma pay_roomier {rules : Rules} {m m' after : Meter} {price : Price} {memoryEnd : Option Nat}
    (hm : Roomier m m') (h : Meter.pay rules price memoryEnd m = (.ok (), after)) :
    ∃ after', Meter.pay rules price memoryEnd m' = (.ok (), after') ∧ Roomier after after' := by
  have hgas := hm.gas_le
  obtain ⟨l, hl, hl'⟩ := hm.ledger
  obtain ⟨l₁, hl₁, l₂, rfl, hbooked⟩ := pay_booked h
  rw [hl, Option.some.injEq] at hl₁
  subst hl₁
  cases hbooked with
  | @priced _ _ b hbill hle hforward =>
    refine ⟨⟨m'.limit, some ⟨b.memoryGas, l.usedGas + b.cost, _⟩⟩, ?_, ⟨_, rfl, rfl⟩, hm.limit,
      hm.fits⟩
    -- Whether the amounts overflow has nothing to do with the gas that is left.
    have hfits : ¬Quantity.limit ≤ b.cost + (b.memoryGas - l.memoryGas) := by
      intro hoverflow
      simp [Meter.pay, hl, hbill, hoverflow] at h
    have henough : ¬m'.gas < b.cost + (b.memoryGas - l.memoryGas) := by omega
    have hhanded : ¬m'.gas - (b.cost + (b.memoryGas - l.memoryGas)) < price.forwarded := by omega
    simp only [Meter.pay, hl', hbill, if_neg hfits, if_neg henough, if_neg hhanded]

/-- What a meter records, a roomier one records too. -/
theorem record_roomier {rules : Rules} {m m' after : Meter} {e : Entry} (hm : Roomier m m')
    (h : m.record rules e = (.ok (), after)) :
    ∃ after', m'.record rules e = (.ok (), after') ∧ Roomier after after' := by
  cases e with
  | cost amount => exact take_roomier hm h
  | deposit length =>
    simp only [Meter.record] at h ⊢
    by_cases hfits : length * Gas.codeByte < Quantity.limit
    · rw [if_pos hfits] at h ⊢
      exact take_roomier hm h
    · rw [if_neg hfits] at h
      simp [Action.fault] at h
  | refund amount | stipend amount =>
    obtain ⟨l, hl, hl'⟩ := hm.ledger
    simp only [Meter.record, hl, Prod.mk.injEq, true_and] at h
    subst h
    simp only [Meter.record, hl']
    exact ⟨_, rfl, ⟨_, rfl, rfl⟩, hm.limit, hm.fits⟩
  | priced price memoryEnd => exact pay_roomier hm h

/-- What the executors share: all but the meter, the frames around, and the trace. -/
structure Alike (ex ex' : Executor) : Prop where
  rules : ex'.rules = ex.rules
  instructions : ex'.instructions = ex.instructions
  environment : ex'.environment = ex.environment
  world : ex'.world = ex.world
  origin : ex'.origin = ex.origin
  readOnly : ex'.frame.readOnly = ex.frame.readOnly
  depth : ex'.frame.depth = ex.frame.depth

/-- The second executor is at the same point as the first, with at least as much gas. -/
structure Richer (ex ex' : Executor) : Prop extends Alike ex ex' where
  meter : Roomier ex.frame.meter ex'.frame.meter

section Executors

variable {ex ex' after : Executor}

lemma Richer.gas_le (h : Richer ex ex') : ex.gas ≤ ex'.gas := h.meter.gas_le

/-- Executors that are alike stay so as long as they keep their surroundings and one world. -/
lemma Alike.keeps {after' : Executor} (h : Alike ex ex') (hk : Keeps ex after)
    (hk' : Keeps ex' after') (hworld : after'.world = after.world) : Alike after after' where
  rules := by rw [hk.rules, hk'.rules, h.rules]
  instructions := by rw [hk.instructions, hk'.instructions, h.instructions]
  environment := by rw [hk.environment, hk'.environment, h.environment]
  world := hworld
  origin := by rw [hk.origin, hk'.origin, h.origin]
  readOnly := by rw [hk.frameReadOnly, hk'.frameReadOnly, h.readOnly]
  depth := by rw [hk.depth, hk'.depth, h.depth]

lemma Alike.onWorld (h : Alike ex ex') (f : World → World) :
    Alike (ex.onWorld f) (ex'.onWorld f) where
  rules := h.rules
  instructions := h.instructions
  environment := h.environment
  world := congrArg f h.world
  origin := h.origin
  readOnly := h.readOnly
  depth := h.depth

lemma Richer.onWorld (h : Richer ex ex') (f : World → World) :
    Richer (ex.onWorld f) (ex'.onWorld f) :=
  ⟨h.toAlike.onWorld f, h.meter⟩

lemma Richer.emit (h : Richer ex ex') (listener : Listener) (event event' : Event) :
    Richer (ex.emit listener event) (ex'.emit listener event') := by
  refine ⟨h.toAlike.keeps (keeps_emit _ _ _) (keeps_emit _ _ _) ?_, ?_⟩
  · rw [emit_world, emit_world, h.world]
  · rw [emit_frame, emit_frame]
    exact h.meter

lemma record_richer {e : Entry} (h : Richer ex ex')
    (hrecord : Executor.record e ex = (.ok (), after)) :
    ∃ after', Executor.record e ex' = (.ok (), after') ∧ Richer after after' := by
  rw [record_eq, Prod.mk.injEq] at hrecord
  obtain ⟨hresult, rfl⟩ := hrecord
  obtain ⟨counted, hcounted, hroomier⟩ := record_roomier h.meter (Prod.ext hresult rfl)
  have hcounted' : ex'.frame.meter.record ex'.rules e = (.ok (), counted) := by
    rw [h.rules]
    exact hcounted
  refine ⟨(Executor.record e ex').2, ?_, h.toAlike.keeps (keeps_record e ex) (keeps_record e ex')
    h.world, ?_⟩
  · rw [record_eq, hcounted']
  · rw [record_eq, hcounted']
    exact hroomier

lemma Alike.price (h : Alike ex ex') (op : Opcode) (address : Address) (stack : Stack) :
    ex'.price op address stack = ex.price op address stack := by
  simp only [Executor.price, h.world, h.rules]

lemma charge_richer {op : Opcode} {address : Address} {stack : Stack} {memoryEnd : Option Nat}
    (h : Richer ex ex')
    (hcharge : Executor.charge op address stack memoryEnd ex = (.ok (), after)) :
    ∃ after', Executor.charge op address stack memoryEnd ex' = (.ok (), after') ∧
      Richer after after' := by
  unfold Executor.charge at hcharge ⊢
  rw [h.price]
  split at hcharge
  · exact record_richer h hcharge
  · split at hcharge
    · cases hcharge
    · exact record_richer h hcharge

lemma Alike.admits (h : Alike ex ex') (m : Machine) :
    Executor.admit ex' m = Executor.admit ex m := by
  unfold Executor.admit Executor.vet Executor.refusesWrite
  simp only [h.instructions, h.readOnly]

lemma Alike.isTooDeep (h : Alike ex ex') : ex'.isTooDeep = ex.isTooDeep := by
  simp only [Executor.isTooDeep, h.depth, h.rules]

lemma Alike.isCollision (h : Alike ex ex') (address : Address) :
    ex'.isCollision address = ex.isCollision address := by
  simp only [Executor.isCollision, h.world]

lemma Alike.nextCreation (h : Alike ex ex') (caller : Address) :
    ex'.nextCreation caller = ex.nextCreation caller := by
  simp only [Executor.nextCreation, h.world]

lemma Alike.creationFault (h : Alike ex ex') (caller : Address) (value : Word) :
    ex'.creationFault caller value = ex.creationFault caller value := by
  simp only [Executor.creationFault, h.depth, h.rules, h.world]

lemma Alike.machine (h : Alike ex ex') (code input : Bytes) :
    ex'.machine code input = ex.machine code input := by
  simp only [Executor.machine, h.rules]

lemma Alike.enter {gasLimit gasLimit' : Nat} (h : Alike ex ex') (hle : gasLimit ≤ gasLimit')
    (hfits : gasLimit' ≤ Quantity.max) :
    Richer (ex.enter gasLimit false) (ex'.enter gasLimit' false) where
  rules := h.rules
  instructions := h.instructions
  environment := h.environment
  world := h.world
  origin := h.origin
  readOnly := congrArg (false || ·) h.readOnly
  depth := congrArg (fun depth : Option Nat => some (depth.elim 0 (· + 1))) h.depth
  meter := roomier_new hle hfits

lemma Richer.ensureAccount (h : Richer ex ex') (address : Address) :
    Richer (ex.ensureAccount address) (ex'.ensureAccount address) := by
  unfold Executor.ensureAccount
  rw [h.world]
  split
  · exact h
  · exact h.onWorld _

lemma transfer_richer {t : Transfer} (h : Richer ex ex')
    (htransfer : Executor.transfer t ex = (.ok (), after)) :
    ∃ after', Executor.transfer t ex' = (.ok (), after') ∧ Richer after after' := by
  obtain ⟨hfunds, rfl⟩ := transfer_moved htransfer
  refine ⟨_, ?_, h.onWorld _⟩
  rw [← h.world] at hfunds
  simp only [Executor.transfer, if_neg hfunds]

lemma transferIfAny_richer {t : Option Transfer} (h : Richer ex ex')
    (htransfer : Executor.transferIfAny t ex = (.ok (), after)) :
    ∃ after', Executor.transferIfAny t ex' = (.ok (), after') ∧ Richer after after' := by
  cases t with
  | none =>
    cases htransfer
    exact ⟨ex', rfl, h⟩
  | some t => exact transfer_richer h htransfer

lemma markDestroyed_richer {address target : Address} (h : Richer ex ex')
    (hmark : Executor.markDestroyed address target ex = (.ok (), after)) :
    ∃ after', Executor.markDestroyed address target ex' = (.ok (), after') ∧
      Richer after after' := by
  have hmarked := h.emit .executor (.selfDestruct address target (ex.world.balance address))
    (.selfDestruct address target (ex.world.balance address))
  simp only [Executor.markDestroyed, h.world] at hmark ⊢
  cases htransfer : Executor.transfer ⟨address, target, ex.world.balance address⟩
      (ex.emit .executor (.selfDestruct address target (ex.world.balance address))) with
  | mk result moved =>
    rw [htransfer] at hmark
    cases result with
    | error f => cases hmark
    | ok u =>
      cases hmark
      obtain ⟨moved', htransfer', hmoved⟩ := transfer_richer hmarked htransfer
      rw [htransfer']
      exact ⟨_, rfl, hmoved.onWorld _⟩

end Executors

/-- The order with another gas operand. -/
def Order.withGas (targetGas : Option Nat) : Order → Order
  | call o => call { o with targetGas := targetGas }
  | create o => create { o with targetGas := targetGas }

/-- How two frames are given their gas: as much to the one as to the other, or to each all that is
handed over. -/
inductive Endows (ex ex' : Executor) (order order' : Order) : Prop
  | same (hgas : order'.gas ex' = order.gas ex) (hlimit : order'.gasLimit ex' = order.gasLimit ex)
  | whole (hgas : order.gas ex ≤ order'.gas ex') (hlimit : order.gasLimit ex = order.gas ex)
    (hlimit' : order'.gasLimit ex' = order'.gas ex')

lemma Order.gas_le (ex : Executor) (order : Order) : order.gas ex ≤ ex.gas := by
  cases order with
  | call o => exact Nat.min_le_right _ _
  | create o => exact Nat.min_le_left _ _

lemma Order.gasLimit_fits {ex : Executor} (hquantity : ex.gas ≤ Quantity.max) (order : Order) :
    order.gasLimit ex ≤ Quantity.max := by
  have hgas := Nat.le_trans (order.gas_le ex) hquantity
  cases order with
  | call o =>
    simp only [Order.gasLimit, Executor.callGasLimit]
    split
    · exact Nat.min_le_right _ _
    · exact hgas
  | create o => exact hgas

lemma Endows.limit_le {ex ex' : Executor} {order order' : Order} (h : Endows ex ex' order order') :
    order.gasLimit ex ≤ order'.gasLimit ex' := by
  cases h with
  | same hgas hlimit => exact Nat.le_of_eq hlimit.symm
  | whole hgas hlimit hlimit' =>
    rw [hlimit, hlimit']
    exact hgas

section Orders

variable {ex ex' entered started : Executor} {order : Order} {targetGas : Option Nat}

lemma Richer.pays (h : Richer ex ex') (order : Order) :
    ∃ paid', order.pay ex' = (.ok (), paid') := by
  obtain ⟨l, -, hl'⟩ := h.meter.ledger
  have hworking : ex'.frame.meter.hasFailed = false := by simp [Meter.hasFailed, hl']
  cases hpay : order.pay ex' with
  | mk result paid' =>
    cases result with
    | error f => exact absurd hpay (pay_ne_error hworking)
    | ok u => exact ⟨paid', rfl⟩

/-- The second execution enters the frame that the first enters. -/
lemma Enters.richer (henters : Enters ex order entered) (h : Richer ex ex')
    (hendows : Endows ex ex' order (order.withGas targetGas)) :
    ∃ entered', Enters ex' (order.withGas targetGas) entered' ∧ Richer entered entered' := by
  have hle := hendows.limit_le
  have hfits := (order.withGas targetGas).gasLimit_fits h.meter.gas_fits
  obtain ⟨paid', hpay'⟩ := h.pays (order.withGas targetGas)
  have hpaid {paid : Executor} (hpay : order.pay ex = (.ok (), paid)) : Alike paid paid' := by
    refine h.toAlike.keeps (pay_evolves 0 hpay).keeps (pay_evolves 0 hpay').keeps ?_
    rw [pay_world hpay', pay_world hpay, h.world]
  cases id henters with
  | @call o _ hpay =>
    have henters' : Enters ex' ((Order.call o).withGas targetGas) _ := .call hpay'
    rw [← henters'.limit] at hle hfits
    rw [← henters.limit] at hle
    exact ⟨_, henters', (hpaid hpay).enter hle hfits⟩
  | @create o _ haccepted hpay =>
    have henters' : Enters ex' ((Order.create o).withGas targetGas) _ :=
      .create ((h.creationFault _ _).trans haccepted) hpay'
    rw [← henters'.limit] at hle hfits
    rw [← henters.limit] at hle
    exact ⟨_, henters', ((hpaid hpay).onWorld _).enter hle hfits⟩

/-- What prepares the frame of the first execution prepares that of the second. -/
lemma Prepares.richer {entered' : Executor} (hprepares : Prepares ex order entered started)
    (h : Alike ex ex') (hentered : Richer entered entered') (targetGas : Option Nat) :
    ∃ started', Prepares ex' (order.withGas targetGas) entered' started' ∧
      Richer started started' := by
  cases hprepares with
  | @call o _ _ hdepth htransfer =>
    obtain ⟨started', htransfer', hstarted⟩ :=
      transferIfAny_richer (hentered.ensureAccount o.context.address) htransfer
    exact ⟨started', .call (hentered.isTooDeep.trans hdepth) htransfer', hstarted⟩
  | @create o _ _ hfree htransfer =>
    rw [← h.nextCreation o.caller] at hfree htransfer
    obtain ⟨started', htransfer', hstarted⟩ := transfer_richer (hentered.onWorld _) htransfer
    exact ⟨started', .create ((hentered.isCollision _).trans hfree) htransfer', hstarted⟩

/-- The second execution starts the frame that the first starts. -/
theorem Starts.richer {child : Configuration} (hstarts : Starts ex order child)
    (h : Richer ex ex') (hendows : Endows ex ex' order (order.withGas targetGas)) :
    ∃ started', Starts ex' (order.withGas targetGas) ⟨child.context, child.machine, started'⟩ ∧
      Richer child.executor started' := by
  obtain ⟨-, entered, henters, hprepares⟩ := hstarts.prepared
  obtain ⟨entered', henters', hentered⟩ := henters.richer h hendows
  obtain ⟨started', hprepares', hstarted⟩ := hprepares.richer h.toAlike hentered targetGas
  refine ⟨started', ?_, hstarted⟩
  cases id hstarts with
  | call hopening =>
    have hopened' := openCall_prepared henters' hprepares'
    rw [openCall_prepared henters hprepares, hstarts.code, if_neg Bool.false_ne_true] at hopening
    rw [h.world, hstarts.code, if_neg Bool.false_ne_true, hstarted.machine,
      (Opening.ready.inj hopening).1] at hopened'
    exact .call hopened'
  | create hopening =>
    have hopened' := openCreation_prepared henters' hprepares'
    rw [openCreation_prepared henters hprepares] at hopening
    rw [hstarted.machine, (Opening.ready.inj hopening).1] at hopened'
    have hstarts' := Starts.create hopened'
    rw [h.nextCreation] at hstarts'
    exact hstarts'

/-- A frame has left what its limit and its ledger say. -/
lemma gas_of_kept {outer last : Executor} {gasLimit : Nat} {l : Ledger}
    (hkeeps : Keeps (outer.enter gasLimit false) last) (hl : last.frame.meter.ledger = some l) :
    last.gas + (l.usedGas + l.memoryGas) = gasLimit := by
  have hlimit : last.frame.meter.limit = gasLimit := hkeeps.limit
  have hsolvent : Solvent last.frame.meter := hkeeps.solvent (solvent_new gasLimit)
  rw [Solvent, totalUsedGas_of_ledger hl, hlimit] at hsolvent
  have hgas : last.gas = gasLimit - l.usedGas - l.memoryGas := by
    rw [← hlimit]
    exact gas_of_ledger hl
  omega

/-- Once the two frames are committed, the executors around them are at the same point again. What
a frame used is the same in both executions, so that either both give back the same or each gives
back what it did not use. -/
theorem close_richer {entered' last last' : Executor} {order' : Order} (h : Richer ex ex')
    (henters : Enters ex order entered) (henters' : Enters ex' order' entered')
    (hendows : Endows ex ex' order order') (hkeeps : Keeps entered last)
    (hkeeps' : Keeps entered' last') (hlast : Richer last last') :
    Richer (last.close .commit) (last'.close .commit) := by
  obtain ⟨l, hl, hl'⟩ := h.meter.ledger
  obtain ⟨-, outer, rfl, houter, hmeter⟩ := henters.meter hl
  obtain ⟨-, outer', rfl, houter', hmeter'⟩ := henters'.meter hl'
  obtain ⟨used, hused, hused'⟩ := hlast.meter.ledger
  have hworld : (last'.close .commit).world = (last.close .commit).world := by
    rw [close_world _ hkeeps, close_world _ hkeeps', closedWorld, closedWorld, if_pos rfl,
      if_pos rfl, hlast.world]
  refine ⟨h.toAlike.keeps (houter.trans (keeps_close _ hkeeps))
    (houter'.trans (keeps_close _ hkeeps')) hworld, ?_⟩
  have hrest : l.usedGas + order'.gas ex' - last'.gas = l.usedGas + order.gas ex - last.gas := by
    have hleft := gas_of_kept hkeeps hused
    have hleft' := gas_of_kept hkeeps' hused'
    cases hendows with
    | same hgas hlimit => omega
    | whole hgas hlimit hlimit' => omega
  rw [close_meter hkeeps (congrArg Meter.ledger hmeter),
    close_meter hkeeps' (congrArg Meter.ledger hmeter'), hmeter, hmeter']
  refine ⟨⟨_, rfl, ?_⟩, h.meter.limit, h.meter.fits⟩
  have hgas : last.gas = last.frame.meter.gas := rfl
  have hgas' : last'.gas = last'.frame.meter.gas := rfl
  simp only [restoredLedger, ← hgas, ← hgas', hrest, hlast.meter.totals.2]

end Orders

end ContractMachine.Proofs
