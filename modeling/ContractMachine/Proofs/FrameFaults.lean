import ContractMachine.Proofs.FrameExecution

/-!
# The faults of a frame

What goes wrong in a call or a creation stays with its outcome: the frame that makes it pushes
zero and goes on. So a frame ends only with faults that its own instructions cause, which are
about the stack, the memory, jumps, gas, opcodes and write protection.
-/

namespace ContractMachine.Proofs

/-- The faults that an instruction can cause in the frame that performs it. The others tell why a
nested frame was refused or how it was closed. -/
def FrameFault : Fault → Prop
  | .stackUnderflow | .stackOverflow | .invalidJump | .invalidRange | .invalidCode _ | .outOfGas
  | .gasUintOverflow | .writeProtection => True
  | .callTooDeep | .createCollision | .outOfFund | .maxNonce | .other _
  | .codeStoreOutOfGas => False

section Faults

variable {α β : Type} {P : Fault → Prop}

/-- The result is no fault, or one of those that `P` allows. -/
def FaultsIn (P : Fault → Prop) (r : Except Fault α) : Prop := ∀ f, r = .error f → P f

lemma faultsIn_ok (a : α) : FaultsIn P (.ok a : Except Fault α) := by
  intro f h
  cases h

lemma faultsIn_error {f : Fault} (hf : P f) : FaultsIn P (.error f : Except Fault α) := by
  intro g h
  cases h
  exact hf

lemma FaultsIn.bind {r : Except Fault α} {k : α → Except Fault β} (hr : FaultsIn P r)
    (hk : ∀ a, FaultsIn P (k a)) : FaultsIn P (r >>= k) := by
  cases r with
  | error f => exact faultsIn_error (hr f rfl)
  | ok a => exact hk a

lemma FaultsIn.ite {c : Prop} [Decidable c] {r r' : Except Fault α} (hr : FaultsIn P r)
    (hr' : FaultsIn P r') : FaultsIn P (if c then r else r') := by
  by_cases hc : c
  · rw [if_pos hc]
    exact hr
  · rw [if_neg hc]
    exact hr'

end Faults

section Closure

variable {σ τ α β : Type}

/-- The result is no fault, or one that a frame causes itself. -/
def OwnResult (r : Except Fault α) : Prop := ∀ f, r = .error f → FrameFault f

/-- The action gives such a result in every state. -/
def OwnFaults (x : Action σ α) : Prop := ∀ s, OwnResult (x s).1

lemma ownResult_ok (a : α) : OwnResult (.ok a : Except Fault α) := faultsIn_ok a

lemma ownResult_error {f : Fault} (hf : FrameFault f) : OwnResult (.error f : Except Fault α) :=
  faultsIn_error hf

lemma OwnResult.bind {r : Except Fault α} {k : α → Except Fault β} (hr : OwnResult r)
    (hk : ∀ a, OwnResult (k a)) : OwnResult (r >>= k) := FaultsIn.bind hr hk

lemma OwnResult.ite {c : Prop} [Decidable c] {r r' : Except Fault α} (hr : OwnResult r)
    (hr' : OwnResult r') : OwnResult (if c then r else r') := FaultsIn.ite hr hr'

lemma ownFaults_pure (a : α) : OwnFaults (pure a : Action σ α) := fun _ => ownResult_ok a

lemma ownFaults_fault {f : Fault} (hf : FrameFault f) : OwnFaults (Action.fault f : Action σ α) :=
  fun _ => ownResult_error hf

lemma ownFaults_read (f : σ → α) : OwnFaults (Action.read f) := fun s => ownResult_ok (f s)

lemma ownFaults_modify (f : σ → σ) : OwnFaults (Action.modify f) := fun _ => ownResult_ok ()

lemma OwnFaults.bind {x : Action σ α} {k : α → Action σ β} (hx : OwnFaults x)
    (hk : ∀ a, OwnFaults (k a)) : OwnFaults (x >>= k) := by
  intro s
  have hfirst := hx s
  rw [Action.bind_apply]
  cases hxs : x s with
  | mk result s' =>
    rw [hxs] at hfirst
    cases result with
    | error f => exact ownResult_error (hfirst f rfl)
    | ok a => exact hk a s'

lemma OwnFaults.ite {c : Prop} [Decidable c] {x y : Action σ α} (hx : OwnFaults x)
    (hy : OwnFaults y) : OwnFaults (if c then x else y) := by
  by_cases hc : c
  · rw [if_pos hc]
    exact hx
  · rw [if_neg hc]
    exact hy

end Closure

lemma ownResult_peek (s : Stack) (n : Nat) : OwnResult (s.peek n) := by
  unfold Stack.peek
  cases s.items[n]? with
  | none => exact ownResult_error trivial
  | some w => exact ownResult_ok w

lemma ownResult_check (s : Stack) (pop push : Nat) : OwnResult (s.check pop push) :=
  .ite (ownResult_error trivial) (.ite (ownResult_error trivial) (ownResult_ok ()))

lemma ownFaults_onStack {α : Type} {x : Action Stack α} (hx : OwnFaults x) :
    OwnFaults (Machine.onStack x) := fun m => hx m.stack

lemma ownFaults_onMemory {α : Type} {x : Action Memory α} (hx : OwnFaults x) :
    OwnFaults (Machine.onMemory x) := fun m => hx m.memory

lemma ownFaults_pop : OwnFaults Machine.pop := by
  apply ownFaults_onStack
  intro s
  obtain ⟨items, limit⟩ := s
  cases items with
  | nil => exact ownResult_error trivial
  | cons top rest => exact ownResult_ok top

lemma ownFaults_push (w : Word) : OwnFaults (Machine.push w) := by
  apply ownFaults_onStack
  intro s
  unfold Stack.push
  by_cases h : s.limit < s.height + 1
  · rw [if_pos h]
    exact ownResult_error trivial
  · rw [if_neg h]
    exact ownResult_ok ()

lemma ownFaults_set (n : Nat) (w : Word) : OwnFaults (Stack.set n w) := by
  intro s
  unfold Stack.set
  by_cases h : n < s.height
  · rw [if_pos h]
    exact ownResult_ok ()
  · rw [if_neg h]
    exact ownResult_error trivial

lemma ownFaults_peek (n : Nat) : OwnFaults (Action.query fun m : Machine => m.stack.peek n) :=
  fun m => ownResult_peek m.stack n

lemma ownFaults_quantity (w : Word) (f : Fault) (hf : FrameFault f) :
    OwnFaults (Machine.quantity w f) := by
  unfold Machine.quantity
  cases w.toQuantity? with
  | none => exact ownFaults_fault hf
  | some q => exact ownFaults_pure q

lemma ownFaults_region (offset length : Word) : OwnFaults (Machine.region offset length) :=
  .ite (ownFaults_pure _) ((ownFaults_quantity offset .outOfGas trivial).bind fun _ =>
    (ownFaults_quantity length .outOfGas trivial).bind fun _ => ownFaults_read _)

lemma ownFaults_resize (stop : Nat) : OwnFaults (Memory.resize stop) := by
  intro m
  rw [Memory.resize_eq]
  by_cases hfits : stop ≤ m.data.size
  · rw [if_pos hfits]
    exact ownResult_ok ()
  · rw [if_neg hfits]
    by_cases hrange : Quantity.limit ≤ Quantity.wordAlign stop
    · simp only [if_pos hrange]
      exact ownResult_error trivial
    · by_cases hlimit : m.limit < Quantity.wordAlign stop
      · simp only [if_neg hrange, if_pos hlimit]
        exact ownResult_error trivial
      · simp only [if_neg hrange, if_neg hlimit]
        exact ownResult_ok ()

lemma ownFaults_grow (memoryEnd : Option Nat) : OwnFaults (Machine.grow memoryEnd) := by
  cases memoryEnd with
  | none => exact ownFaults_pure ()
  | some stop => exact ownFaults_onMemory (ownFaults_resize stop)

lemma ownFaults_fill (offset count : Nat) (source : Nat → UInt8) :
    OwnFaults (Memory.fill offset count source) := by
  intro m
  unfold Memory.fill
  by_cases hnone : count = 0
  · rw [if_pos hnone]
    exact ownResult_ok ()
  · rw [if_neg hnone]
    by_cases hrange : m.data.size < offset + count
    · rw [if_pos hrange]
      exact ownResult_error trivial
    · rw [if_neg hrange]
      exact ownResult_ok ()

lemma ownFaults_copyMemory (offset sourceOffset length : Word) (source : Bytes) :
    OwnFaults (Memory.copy offset sourceOffset length source) := by
  intro m
  unfold Memory.copy
  by_cases hnone : length = 0
  · rw [if_pos hnone]
    exact ownResult_ok ()
  · rw [if_neg hnone]
    cases offset.toQuantity? with
    | none => exact ownResult_error trivial
    | some start =>
      cases length.toQuantity? with
      | none => exact ownResult_error trivial
      | some count => exact ownFaults_fill start count _ m

lemma ownFaults_unary (op : UnaryOp) : OwnFaults (Machine.unary op) :=
  ownFaults_pop.bind fun _ => ownFaults_push _

lemma ownFaults_binary (op : BinaryOp) : OwnFaults (Machine.binary op) :=
  ownFaults_pop.bind fun _ => ownFaults_pop.bind fun _ => ownFaults_push _

lemma ownFaults_ternary (op : TernaryOp) : OwnFaults (Machine.ternary op) :=
  ownFaults_pop.bind fun _ => ownFaults_pop.bind fun _ => ownFaults_pop.bind fun _ =>
    ownFaults_push _

lemma ownFaults_sha3 : OwnFaults Machine.sha3 :=
  ownFaults_pop.bind fun offset => ownFaults_pop.bind fun length =>
    (ownFaults_region offset length).bind fun _ => ownFaults_push _

lemma ownFaults_lookup (f : Word → Word) : OwnFaults (Machine.lookup f) :=
  ownFaults_pop.bind fun _ => ownFaults_push _

lemma ownFaults_callDataLoad : OwnFaults Machine.callDataLoad :=
  ownFaults_pop.bind fun _ => (ownFaults_read _).bind fun _ => ownFaults_push _

lemma ownFaults_copy (source : Machine → Bytes) : OwnFaults (Machine.copy source) :=
  ownFaults_pop.bind fun _ => ownFaults_pop.bind fun _ => ownFaults_pop.bind fun _ =>
    (ownFaults_read source).bind fun _ => ownFaults_onMemory (ownFaults_copyMemory _ _ _ _)

lemma ownFaults_extCodeCopy (code : Address → Bytes) : OwnFaults (Machine.extCodeCopy code) :=
  ownFaults_pop.bind fun _ => ownFaults_copy _

lemma ownFaults_discard : OwnFaults Machine.discard :=
  ownFaults_pop.bind fun _ => ownFaults_pure ()

lemma ownFaults_mload : OwnFaults Machine.mload :=
  ownFaults_pop.bind fun index => (ownFaults_quantity index .outOfGas trivial).bind fun _ =>
    (ownFaults_read _).bind fun _ => ownFaults_push _

lemma ownFaults_mstore : OwnFaults Machine.mstore :=
  ownFaults_pop.bind fun index => ownFaults_pop.bind fun _ =>
    (ownFaults_quantity index .outOfGas trivial).bind fun _ =>
      ownFaults_onMemory (ownFaults_fill _ _ _)

lemma ownFaults_mstore8 : OwnFaults Machine.mstore8 :=
  ownFaults_pop.bind fun index => ownFaults_pop.bind fun _ =>
    (ownFaults_quantity index .outOfGas trivial).bind fun _ =>
      ownFaults_onMemory (ownFaults_fill _ _ _)

lemma ownFaults_jumpTo (destination : Word) : OwnFaults (Machine.jumpTo destination) :=
  (ownFaults_quantity destination .invalidJump trivial).bind fun _ =>
    (ownFaults_read _).bind fun _ => .ite (ownFaults_modify _) (ownFaults_fault trivial)

lemma ownFaults_jump : OwnFaults Machine.jump :=
  ownFaults_pop.bind fun destination => ownFaults_jumpTo destination

lemma ownFaults_jumpIf : OwnFaults Machine.jumpIf :=
  ownFaults_pop.bind fun destination => ownFaults_pop.bind fun _ =>
    .ite (ownFaults_modify _) (ownFaults_jumpTo destination)

lemma ownFaults_pushImmediate (width : Nat) : OwnFaults (Machine.pushImmediate width) :=
  (ownFaults_read _).bind fun _ => ownFaults_push _

lemma ownFaults_dup (n : Nat) : OwnFaults (Machine.dup n) :=
  (ownFaults_peek (n - 1)).bind fun _ => ownFaults_push _

lemma ownFaults_swap (n : Nat) : OwnFaults (Machine.swap n) :=
  (ownFaults_peek 0).bind fun _ => (ownFaults_peek n).bind fun _ =>
    (ownFaults_onStack (ownFaults_set 0 _)).bind fun _ => ownFaults_onStack (ownFaults_set n _)

lemma ownFaults_ret : OwnFaults Machine.ret :=
  ownFaults_pop.bind fun offset => ownFaults_pop.bind fun length =>
    .ite (ownFaults_modify _) ((ownFaults_quantity offset .outOfGas trivial).bind fun _ =>
      (ownFaults_quantity length .outOfGas trivial).bind fun _ => ownFaults_modify _)

lemma ownFaults_takeStore : OwnFaults Machine.takeStore :=
  ownFaults_pop.bind fun _ => ownFaults_pop.bind fun _ => ownFaults_pure _

lemma ownFaults_takeItems (n : Nat) : OwnFaults (Machine.takeItems n) := by
  induction n with
  | zero => exact ownFaults_pure []
  | succ n ih => exact ownFaults_pop.bind fun _ => ih.bind fun _ => ownFaults_pure _

lemma ownFaults_takeLog (topics : Nat) : OwnFaults (Machine.takeLog topics) :=
  ownFaults_pop.bind fun offset => ownFaults_pop.bind fun length =>
    (ownFaults_region offset length).bind fun _ => (ownFaults_takeItems topics).bind fun _ =>
      ownFaults_pure _

lemma ownFaults_takeCreation : OwnFaults Machine.takeCreation :=
  ownFaults_pop.bind fun _ => ownFaults_pop.bind fun offset => ownFaults_pop.bind fun length =>
    (ownFaults_region offset length).bind fun _ => ownFaults_pure _

lemma ownFaults_takeCallValue (scheme : CallScheme) :
    OwnFaults (Machine.takeCallValue scheme) := by
  cases scheme with
  | delegateCall => exact ownFaults_pure 0
  | call | callCode => exact ownFaults_pop

lemma ownFaults_takeCall (scheme : CallScheme) : OwnFaults (Machine.takeCall scheme) :=
  ownFaults_pop.bind fun _ => ownFaults_pop.bind fun _ =>
    (ownFaults_takeCallValue scheme).bind fun _ => ownFaults_pop.bind fun inOffset =>
      ownFaults_pop.bind fun inLength => ownFaults_pop.bind fun _ => ownFaults_pop.bind fun _ =>
        (ownFaults_region inOffset inLength).bind fun _ => ownFaults_pure _

lemma ownFaults_putOutput (request : Machine.CallRequest) (output : Bytes) :
    OwnFaults (Machine.putOutput request output) :=
  .ite (ownFaults_pure ()) ((ownFaults_quantity request.outOffset .outOfGas trivial).bind fun _ =>
    (ownFaults_quantity request.outLength .outOfGas trivial).bind fun _ =>
      ownFaults_onMemory (ownFaults_fill _ _ _))

/-- However a call ended, its end faults only for reasons of the frame that made it. -/
lemma ownFaults_finishCall (request : Machine.CallRequest) (exit : Exit) (output : Bytes) :
    OwnFaults (Machine.finishCall request exit output) :=
  .ite ((ownFaults_putOutput request output).bind fun _ => ownFaults_push 1) (ownFaults_push 0)

lemma ownFaults_finishCreation (exit : Exit) (created : Option Address) :
    OwnFaults (Machine.finishCreation exit created) :=
  .ite (ownFaults_push _) (ownFaults_push 0)

lemma ownResult_bounded (amount : Nat) : OwnResult (Gas.bounded amount) :=
  .ite (ownResult_ok _) (ownResult_error trivial)

lemma ownResult_perWord (base wordPrice : Nat) (length : Word) :
    OwnResult (Gas.perWord base wordPrice length) := by
  rw [Gas.perWord_eq]
  exact .ite (ownResult_bounded _) (ownResult_error trivial)

lemma ownResult_memoryCost (count : Nat) : OwnResult (Gas.memoryCost count) := by
  rw [Gas.memoryCost_eq]
  exact .ite (ownResult_bounded _) (ownResult_error trivial)

lemma ownResult_cost (rules : Rules) (price : Price) : OwnResult (price.cost rules) := by
  cases price with
  | exp power =>
    simp only [Price.cost, Gas.expCost_eq]
    exact ownResult_bounded _
  | sha3 length | copy length | extCodeCopy length => exact ownResult_perWord _ _ length
  | log topics length =>
    simp only [Price.cost, Gas.logCost_eq]
    exact .ite (ownResult_bounded _) (ownResult_error trivial)
  | invalid op => exact ownResult_error trivial
  | _ => exact ownResult_ok _

lemma ownResult_bill (rules : Rules) (paid : Nat) (price : Price) (memoryEnd : Option Nat) :
    OwnResult (Meter.bill rules paid price memoryEnd) := by
  have hmemory : OwnResult (Meter.memoryBill paid memoryEnd) := by
    cases memoryEnd with
    | none => exact ownResult_ok paid
    | some stop => exact (ownResult_memoryCost _).bind fun _ => ownResult_ok _
  exact hmemory.bind fun _ => (ownResult_cost rules price).bind fun _ => ownResult_ok _

lemma ownFaults_take (amount : Nat) : OwnFaults (Meter.take amount) := by
  intro m
  unfold Meter.take
  cases m.ledger with
  | none => exact ownResult_error trivial
  | some l =>
    by_cases hgas : m.gas < amount
    · simp only [if_pos hgas]
      exact ownResult_error trivial
    · simp only [if_neg hgas]
      exact ownResult_ok ()

lemma ownFaults_pay (rules : Rules) (price : Price) (memoryEnd : Option Nat) :
    OwnFaults (Meter.pay rules price memoryEnd) := by
  intro m
  unfold Meter.pay
  cases hl : m.ledger with
  | none => exact ownResult_error trivial
  | some l =>
    have hown := ownResult_bill rules l.memoryGas price memoryEnd
    cases hbill : Meter.bill rules l.memoryGas price memoryEnd with
    | error f =>
      simp only [hbill]
      exact ownResult_error (hown f hbill)
    | ok b =>
      simp only [hbill]
      repeat' split
      all_goals first | exact ownResult_error trivial | exact ownResult_ok ()

/-- A meter refuses an entry only for want of gas or because it cannot be priced. -/
lemma ownFaults_record (rules : Rules) (e : Entry) : OwnFaults (Meter.record rules e) := by
  cases e with
  | cost amount => exact ownFaults_take amount
  | deposit length => exact .ite (ownFaults_take _) (ownFaults_fault trivial)
  | refund amount | stipend amount =>
    intro m
    simp only [Meter.record]
    cases m.ledger with
    | none => exact ownResult_error trivial
    | some l => exact ownResult_ok ()
  | priced price memoryEnd => exact ownFaults_pay rules price memoryEnd

lemma ownResult_price (ex : Executor) (op : Opcode) (address : Address) (stack : Stack) :
    OwnResult (ex.price op address stack) := by
  unfold Executor.price
  repeat' split
  all_goals
    repeat' first
      | exact ownResult_ok _
      | refine OwnResult.bind (ownResult_peek _ _) ?_
      | intro _

lemma ownFaults_charge (op : Opcode) (address : Address) (stack : Stack)
    (memoryEnd : Option Nat) :
    OwnFaults (Executor.charge op address stack memoryEnd : Action Executor Unit) := by
  intro ex
  have hrecord (e : Entry) : OwnResult (Executor.record e ex).1 :=
    ownFaults_record ex.rules e ex.frame.meter
  have hprice := ownResult_price ex op address stack
  unfold Executor.charge
  split
  · exact hrecord _
  · cases hp : ex.price op address stack with
    | error f => exact ownResult_error (hprice f hp)
    | ok price => exact hrecord _

lemma ownResult_vet (ex : Executor) (op : Opcode) (o : Operation) (stack : Stack) :
    OwnResult (ex.vet op o stack) := by
  have hend (offset length : Word) : OwnResult (Footprint.endOf offset length) :=
    .ite (ownResult_ok _) (.ite (ownResult_ok _) (ownResult_error trivial))
  have hregion (offset length : Nat) : OwnResult (Footprint.regionEnd stack offset length) :=
    (ownResult_peek stack offset).bind fun _ => (ownResult_peek stack length).bind fun _ =>
      hend _ _
  have hstop (footprint : Footprint) : OwnResult (footprint.stop stack) := by
    cases footprint with
    | region offset length => exact hregion offset length
    | span offset length => exact (ownResult_peek stack offset).bind fun _ => hend _ _
    | regions inOffset inLength outOffset outLength =>
      exact (hregion inOffset inLength).bind fun _ => (hregion outOffset outLength).bind fun _ =>
        ownResult_ok _
  have halign (stop : Option Nat) : OwnResult (Footprint.align stop) := by
    cases stop with
    | none => exact ownResult_ok none
    | some stop =>
      rw [Footprint.align_some]
      exact .ite (ownResult_ok _) (ownResult_error trivial)
  have hchanges : OwnResult (o.changesWorld op stack) := by
    refine .ite (ownResult_ok _) (.ite ?_ (ownResult_ok _))
    have hvalue := ownResult_peek stack 2
    cases hpeek : stack.peek 2 with
    | error f => exact ownResult_error (hvalue f hpeek)
    | ok value => exact ownResult_ok _
  have hrefuses : OwnResult (ex.refusesWrite op o stack) := .ite hchanges (ownResult_ok _)
  unfold Executor.vet
  refine .ite (ownResult_error trivial) ((ownResult_check stack _ _).bind fun _ =>
    hrefuses.bind fun refuses => .ite (ownResult_error trivial) ?_)
  cases o.footprint with
  | none => exact ownResult_ok none
  | some footprint => exact (hstop footprint).bind fun _ => halign _

lemma proceed_ownFault {x : Action Machine Unit} {m m' : Machine} {ex ex' : Executor} {f : Fault}
    (hx : OwnFaults x) (h : some (proceed x m ex) = some (.fault f, m', ex')) : FrameFault f := by
  have hown := hx m
  unfold proceed at h
  cases hxm : x m with
  | mk result taken =>
    rw [hxm] at hown
    cases result with
    | error g =>
      simp only [hxm, Option.some.injEq, Prod.mk.injEq, Control.exit.injEq, Exit.fault.injEq] at h
      obtain ⟨rfl, -, -⟩ := h
      exact hown g rfl
    | ok u => simp [hxm] at h

/-- Moving its own balance on, an account that is destroyed can always pay. -/
lemma markDestroyed_ok (address target : Address) (ex : Executor) :
    ∃ after, Executor.markDestroyed address target ex = (.ok (), after) := by
  unfold Executor.markDestroyed
  obtain ⟨hshort, -⟩ | ⟨-, h⟩ := transfer_cases ⟨address, target, ex.world.balance address⟩
    (ex.emit .executor (.selfDestruct address target (ex.world.balance address)))
  · simp at hshort
  · simp only [h]
    exact ⟨_, rfl⟩

/-- The instruction faults with one of the faults of its frame, whatever the frames do that it
enters. -/
theorem perform_ownFault {runner : Runner} {i : Instruction} {context : Context} {m m' : Machine}
    {ex ex' : Executor} {f : Fault}
    (h : perform runner i context m ex = some (.fault f, m', ex')) : FrameFault f := by
  have htaken {α : Type} {x : Action Machine α}
      {k : α → Machine → Executor → Option (Control × Machine × Executor)} (hx : OwnFaults x)
      (hk : ∀ a taken, k a taken ex = some (.fault f, m', ex') → FrameFault f)
      (h : takeThen x m ex k = some (.fault f, m', ex')) : FrameFault f := by
    obtain ⟨g, hfault, hg, -⟩ | ⟨a, taken, -, hthen⟩ := takeThen_cases h
    · cases hg
      have hown := hx m
      rw [hfault] at hown
      exact hown f rfl
    · exact hk a taken hthen
  cases i with
  | stop | jumpDest => simp [perform] at h
  | unary op => exact proceed_ownFault (ownFaults_unary op) h
  | binary op => exact proceed_ownFault (ownFaults_binary op) h
  | ternary op => exact proceed_ownFault (ownFaults_ternary op) h
  | sha3 => exact proceed_ownFault ownFaults_sha3 h
  | reading value => exact proceed_ownFault (ownFaults_push _) h
  | balance | extCodeSize | blockHash => exact proceed_ownFault (ownFaults_lookup _) h
  | callDataLoad => exact proceed_ownFault ownFaults_callDataLoad h
  | callDataCopy | codeCopy => exact proceed_ownFault (ownFaults_copy _) h
  | extCodeCopy => exact proceed_ownFault (ownFaults_extCodeCopy _) h
  | pop => exact proceed_ownFault ownFaults_discard h
  | mload => exact proceed_ownFault ownFaults_mload h
  | mstore => exact proceed_ownFault ownFaults_mstore h
  | mstore8 => exact proceed_ownFault ownFaults_mstore8 h
  | sload =>
    simp only [perform, performLoad] at h
    have hpop := ownFaults_pop m
    cases hp : Machine.pop m with
    | mk result popped =>
      cases result with
      | error g =>
        simp only [hp, Option.some.injEq, Prod.mk.injEq, Control.exit.injEq,
          Exit.fault.injEq] at h
        obtain ⟨rfl, -, -⟩ := h
        exact hpop g (by rw [hp])
      | ok slot =>
        have hpush := ownFaults_push (ex.world.storage context.address slot) popped
        cases hq : Machine.push (ex.world.storage context.address slot) popped with
        | mk result pushed =>
          cases result with
          | error g =>
            simp only [hp, hq, Option.some.injEq, Prod.mk.injEq, Control.exit.injEq,
              Exit.fault.injEq] at h
            obtain ⟨rfl, -, -⟩ := h
            exact hpush g (by rw [hq])
          | ok u => simp [hp, hq] at h
  | sstore =>
    simp only [perform] at h
    refine htaken ownFaults_takeStore ?_ h
    intro operands taken hthen
    simp at hthen
  | jump => exact proceed_ownFault ownFaults_jump h
  | jumpIf => exact proceed_ownFault ownFaults_jumpIf h
  | push width => exact proceed_ownFault (ownFaults_pushImmediate width) h
  | dup n => exact proceed_ownFault (ownFaults_dup n) h
  | swap n => exact proceed_ownFault (ownFaults_swap n) h
  | log topics =>
    simp only [perform] at h
    refine htaken (ownFaults_takeLog topics) ?_ h
    intro operands taken hthen
    simp at hthen
  | create =>
    simp only [perform] at h
    refine htaken ownFaults_takeCreation ?_ h
    intro operands taken hthen
    split at hthen
    · cases hthen
    · exact proceed_ownFault (ownFaults_finishCreation _ _) hthen
  | call scheme =>
    simp only [perform] at h
    refine htaken (ownFaults_takeCall scheme) ?_ h
    intro request taken hthen
    split at hthen
    · cases hthen
    · exact proceed_ownFault (ownFaults_finishCall _ _ _) hthen
  | ret =>
    simp only [perform] at h
    refine htaken ownFaults_ret ?_ h
    intro u taken hthen
    simp at hthen
  | selfDestruct =>
    simp only [perform] at h
    refine htaken ownFaults_pop ?_ h
    intro target taken hthen
    obtain ⟨after, hmark⟩ := markDestroyed_ok context.address target.toAddress ex
    simp [hmark] at hthen
  | invalid =>
    simp only [perform] at h
    cases hop : m.opcode? with
    | none => simp [hop] at h
    | some op =>
      simp only [hop, Option.some.injEq, Prod.mk.injEq, Control.exit.injEq, Exit.fault.injEq] at h
      obtain ⟨rfl, -, -⟩ := h
      trivial

lemma admit_ownFault {ex : Executor} {m : Machine} {f : Fault}
    (h : ex.admit m = .error (.fault f)) : FrameFault f := by
  unfold Executor.admit at h
  cases hop : m.opcode? with
  | none => simp [hop] at h
  | some op =>
    have hvet := ownResult_vet ex op (ex.instructions.get op) m.stack
    cases hv : ex.vet op (ex.instructions.get op) m.stack with
    | error g =>
      simp only [hop, hv, Except.error.injEq, Exit.fault.injEq] at h
      subst h
      exact hvet g hv
    | ok memoryEnd => simp [hop, hv] at h

/-- Only a fault of the instruction makes the operation end in a fault. -/
lemma conclude_fault {task : Task} {control : Control} {m m' : Machine} {f : Fault}
    (h : task.conclude control m = (some (.fault f), m')) : control = .fault f := by
  unfold Task.conclude at h
  cases control with
  | proceed =>
    simp only at h
    repeat' split at h
    all_goals simp at h
  | halt halt =>
    simp only [Prod.mk.injEq, Option.some.injEq] at h
    by_cases hreverts : task.operation.reverts = true <;> simp [hreverts] at h
  | exit exit =>
    simp only [Prod.mk.injEq, Option.some.injEq] at h
    rw [h.1]

theorem step_ownFault {runner : Runner} {context : Context} {m m' : Machine} {ex ex' : Executor}
    {f : Fault} (h : step runner context m ex = some (.exit (.fault f) m' ex')) :
    FrameFault f := by
  cases step_stepped h with
  | refused hvetted => exact admit_ownFault hvetted
  | @unpaid task _ mid hvetted hcharge =>
    have hown := ownFaults_charge task.op context.address m.stack task.memoryEnd ex
    rw [hcharge] at hown
    exact hown f rfl
  | @tooLarge task _ mid grown hvetted hcharge hgrow =>
    have hown := ownFaults_grow task.memoryEnd m
    rw [hgrow] at hown
    exact hown f rfl
  | ends hvetted hcharge hgrow hperform hconclude =>
    rw [conclude_fault hconclude] at hperform
    exact perform_ownFault hperform

/-- Whatever a frame runs, and however deep it nests calls and creations, it ends in no fault
other than those of its own instructions. -/
theorem run_ownFault {fuel : Nat} {context : Context} {m m' : Machine} {ex ex' : Executor}
    {f : Fault} (h : run fuel context m ex = some (.fault f, m', ex')) : FrameFault f := by
  induction fuel generalizing m ex with
  | zero => simp [run] at h
  | succ fuel ih =>
    obtain hstep | ⟨next, after, hstep, hrest⟩ := run_succ h
    · exact step_ownFault hstep
    · exact ih hrest

end ContractMachine.Proofs
