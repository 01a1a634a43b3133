import ContractMachine.Proofs.FrameTree
import ContractMachine.Proofs.MessageRejection
import Mathlib.Algebra.BigOperators.Group.Finset.Basic
import Mathlib.Algebra.Order.BigOperators.Group.Finset
import Mathlib.Data.FinEnum

/-!
# Conservation of value

A transfer takes from one account what it gives to another, so that the balances of a world keep
their sum. Only self-destruction takes value out of the world: of an account that names itself at
once, and of what a marked account gets later when the message is settled. Where the sum is a
word, no balance comes near the bounds at which credits and debits are clipped.
-/

namespace ContractMachine.Proofs

/-- The sum of all balances. -/
def totalBalance (w : World) : Nat := (w.accounts.keys.map fun a => (w.balance a).toNat).sum

lemma totalBalance_eq_sum (w : World) : totalBalance w = ∑ a : Address, (w.balance a).toNat := by
  have habsent : ∀ a ∈ (Finset.univ : Finset Address), a ∉ w.accounts.keys.toFinset →
      (w.balance a).toNat = 0 := by
    intro a _ ha
    have hnone : w.account? a = none := by
      simpa [World.account?, Std.ExtTreeMap.mem_keys] using ha
    rw [World.balance, view_eq_getD, hnone]
    rfl
  rw [totalBalance, ← List.sum_toFinset _ Std.ExtTreeMap.nodup_keys]
  exact Finset.sum_subset (Finset.subset_univ _) habsent

lemma totalBalance_congr {w w' : World} (h : ∀ a, w'.balance a = w.balance a) :
    totalBalance w' = totalBalance w := by
  simp only [totalBalance_eq_sum, h]

lemma totalBalance_mono {w w' : World} (h : ∀ a, (w'.balance a).toNat ≤ (w.balance a).toNat) :
    totalBalance w' ≤ totalBalance w := by
  rw [totalBalance_eq_sum, totalBalance_eq_sum]
  exact Finset.sum_le_sum fun a _ => h a

lemma totalBalance_change {w w' : World} {a : Address}
    (h : ∀ b, a ≠ b → w'.balance b = w.balance b) :
    totalBalance w' + (w.balance a).toNat = totalBalance w + (w'.balance a).toNat := by
  have hothers : ∑ b ∈ Finset.univ.erase a, (w'.balance b).toNat =
      ∑ b ∈ Finset.univ.erase a, (w.balance b).toNat := by
    apply Finset.sum_congr rfl
    intro b hb
    rw [h b (Finset.ne_of_mem_erase hb).symm]
  have hbefore := Finset.add_sum_erase Finset.univ (fun b => (w.balance b).toNat)
    (Finset.mem_univ a)
  have hafter := Finset.add_sum_erase Finset.univ (fun b => (w'.balance b).toNat)
    (Finset.mem_univ a)
  simp only [← totalBalance_eq_sum] at hbefore hafter
  omega

lemma balance_le_totalBalance (w : World) (a : Address) : (w.balance a).toNat ≤ totalBalance w := by
  rw [totalBalance_eq_sum]
  exact Finset.single_le_sum (f := fun b => (w.balance b).toNat) (fun b _ => Nat.zero_le _)
    (Finset.mem_univ a)

/-- The source has the value, and the target gets all of it. -/
def Exact (w : World) (t : Transfer) : Prop :=
  t.value.toNat ≤ (w.balance t.source).toNat ∧
    ((w.subBalance t.source t.value).balance t.target).toNat + t.value.toNat < Word.count

lemma totalBalance_subBalance {w : World} {a : Address} {value : Word}
    (h : value.toNat ≤ (w.balance a).toNat) :
    totalBalance (w.subBalance a value) + value.toNat = totalBalance w := by
  have hchange : totalBalance (w.subBalance a value) + (w.balance a).toNat =
      totalBalance w + ((w.subBalance a value).balance a).toNat := by
    apply totalBalance_change
    intro b hab
    rw [World.subBalance, setBalance_balance, if_neg hab]
  have hleft : ((w.subBalance a value).balance a).toNat =
      (w.balance a).toNat - value.toNat := by
    rw [World.subBalance, setBalance_balance, if_pos rfl, Word.saturatingSub, if_pos h]
    exact BitVec.toNat_sub_of_le h
  omega

lemma totalBalance_addBalance {w : World} {a : Address} {value : Word}
    (h : (w.balance a).toNat + value.toNat < Word.count) :
    totalBalance (w.addBalance a value) = totalBalance w + value.toNat := by
  have hchange : totalBalance (w.addBalance a value) + (w.balance a).toNat =
      totalBalance w + ((w.addBalance a value).balance a).toNat := by
    apply totalBalance_change
    intro b hab
    rw [World.addBalance, setBalance_balance, if_neg hab]
  have hsum : ((w.addBalance a value).balance a).toNat =
      (w.balance a).toNat + value.toNat := by
    rw [World.addBalance, setBalance_balance, if_pos rfl, Word.saturatingAdd, if_pos h]
    exact BitVec.toNat_add_of_lt h
  omega

/-- A transfer that the source can pay for is exact where the sum of all balances is a word. -/
theorem exact_of_funds {w : World} {t : Transfer} (hbound : totalBalance w < Word.count)
    (hfunds : ¬w.balance t.source < t.value) : Exact w t := by
  have hle : t.value.toNat ≤ (w.balance t.source).toNat := by
    rw [BitVec.lt_def] at hfunds
    omega
  have hdebit := totalBalance_subBalance hle
  -- After the debit the balance of the target and the value are two parts of the same sum.
  have hcredited := balance_le_totalBalance (w.subBalance t.source t.value) t.target
  exact ⟨hle, by omega⟩

theorem Exact.totalBalance {w : World} {t : Transfer} (h : Exact w t) :
    totalBalance ((w.subBalance t.source t.value).addBalance t.target t.value) =
      totalBalance w := by
  rw [totalBalance_addBalance h.2]
  exact totalBalance_subBalance h.1

/-- `w'` has at most the value of `w`, and all of it unless an account is marked. -/
structure Conserves (w w' : World) : Prop where
  total_le : totalBalance w' ≤ totalBalance w
  unmarked : w'.marked = ∅ → w.marked = ∅ ∧ totalBalance w' = totalBalance w

namespace Conserves

variable {w mid w' : World}

theorem refl (w : World) : Conserves w w := ⟨Nat.le_refl _, fun h => ⟨h, rfl⟩⟩

theorem trans (h : Conserves w mid) (h' : Conserves mid w') : Conserves w w' where
  total_le := h'.total_le.trans h.total_le
  unmarked hw' := by
    obtain ⟨hmid, htotal'⟩ := h'.unmarked hw'
    obtain ⟨hw, htotal⟩ := h.unmarked hmid
    exact ⟨hw, htotal'.trans htotal⟩

theorem of_eq (htotal : totalBalance w' = totalBalance w) (hmarked : w'.marked = w.marked) :
    Conserves w w' where
  total_le := htotal.le
  unmarked hw' := ⟨hmarked ▸ hw', htotal⟩

end Conserves

lemma conserves_createAccount (w : World) (a : Address) : Conserves w (w.createAccount a) :=
  .of_eq (totalBalance_congr (createAccount_balance w a)) rfl

lemma conserves_setNonce (w : World) (a : Address) (nonce : UInt64) :
    Conserves w (w.setNonce a nonce) :=
  .of_eq (totalBalance_congr fun b => setNonce_balance w a b nonce) (ensure_marked w a)

lemma conserves_selfDestruct (w : World) (a : Address) : Conserves w (w.selfDestruct a) where
  total_le := by
    apply totalBalance_mono
    intro b
    rw [selfDestruct_balance]
    by_cases hab : a = b
    · rw [if_pos hab]
      exact Nat.zero_le _
    · rw [if_neg hab]
  unmarked hmarked := absurd hmarked Std.ExtTreeSet.insert_ne_empty

lemma conserves_move {w : World} {t : Transfer} (h : Exact w t) :
    Conserves w ((w.subBalance t.source t.value).addBalance t.target t.value) := by
  refine .of_eq h.totalBalance ?_
  unfold World.addBalance World.subBalance
  rw [setBalance_marked, setBalance_marked]

theorem WorldChange.conserves {self : Address} {w w' : World} (h : WorldChange self w w')
    (hbound : totalBalance w < Word.count) : Conserves w w' := by
  cases h with
  | store slot value =>
    exact .of_eq (totalBalance_congr fun b => setStorage_balance w self b slot value)
      (ensure_marked w self)
  | log topics data => exact .of_eq rfl rfl
  | raiseNonce _ => exact conserves_setNonce w self _
  | materialize _ => exact conserves_createAccount w self
  | found _ _ => exact conserves_createAccount w self
  | move t hfunds => exact conserves_move (exact_of_funds hbound hfunds)
  | destroy target =>
    have hfunds : ¬w.balance self < w.balance self := by simp
    have hexact := exact_of_funds (t := ⟨self, target, w.balance self⟩) hbound hfunds
    -- An account that names itself has its balance back by now, and loses it with the mark.
    exact (conserves_move hexact).trans (conserves_selfDestruct _ self)
  | deposit created code =>
    exact .of_eq (totalBalance_congr fun b => setCode_balance w created b code)
      (ensure_marked w created)

/-- Whatever a frame does, with all frames nested in it, it makes no value. -/
theorem Evolves.conserves {self : Address} {ex ex' : Executor} (h : Evolves self ex ex')
    (hbound : totalBalance ex.world < Word.count) : Conserves ex.world ex'.world := by
  induction h with
  | refl self ex => exact .refl _
  | trans _ _ ih ih' =>
    have hfirst := ih hbound
    exact hfirst.trans (ih' (hfirst.total_le.trans_lt hbound))
  | record self ex e => exact .refl _
  | emit self ex listener event =>
    rw [emit_world]
    exact .refl _
  | change h => exact h.conserves hbound
  -- A nested frame that fails gives back the world that it was entered in, marks included.
  | nested closing hinner ih =>
    rw [close_world closing hinner.keeps, closedWorld]
    by_cases hcommit : closing = .commit
    · rw [if_pos hcommit]
      exact ih hbound
    · rw [if_neg hcommit]
      exact .refl _

def Bounded (ex : Executor) : Prop := totalBalance ex.world < Word.count

lemma Bounded.evolves {self : Address} {ex ex' : Executor} (h : Evolves self ex ex')
    (hex : Bounded ex) : Bounded ex' :=
  (h.conserves hex).total_le.trans_lt hex

lemma Bounded.emit {ex : Executor} (hex : Bounded ex) (listener : Listener) (event : Event) :
    Bounded (ex.emit listener event) :=
  hex.evolves (.emit 0 ex listener event)

lemma Bounded.enter {ex : Executor} (gasLimit : Nat) (hex : Bounded ex) :
    Bounded (ex.enter gasLimit false) := hex

/-- The transfer of an order, on the executor that tries it. -/
inductive OrderTries (ex : Executor) : Order → Transfer → Executor → Prop
  | call {o : CallOrder} {entered : Executor} {t : Transfer}
      (henters : Enters ex (.call o) entered) (hdepth : entered.isTooDeep = false)
      (ht : o.transfer = some t) :
    OrderTries ex (.call o) t (entered.ensureAccount o.context.address)
  | create {o : CreationOrder} {entered : Executor} (henters : Enters ex (.create o) entered)
      (hfree : entered.isCollision (ex.nextCreation o.caller) = false) :
    OrderTries ex (.create o) ⟨o.caller, ex.nextCreation o.caller, o.value⟩
      (entered.onWorld fun w => w.createAccount (ex.nextCreation o.caller))

/-- The transfer of a step: of what it orders, or of the balance that a self-destruction gives
away. -/
inductive StepTries (c : Configuration) : Transfer → Executor → Prop
  | order {task : Task} {order : Order} {ready trying : Executor} {t : Transfer}
      (horders : Orders c task order ready) (htries : OrderTries ready order t trying) :
    StepTries c t trying
  | destroy {task : Task} {grown taken : Machine} {ready : Executor} {target : Word}
      (hperforms : Performs c task grown ready)
      (hinstruction : task.operation.behaviour = .selfDestruct)
      (htake : Machine.pop grown = (.ok target, taken)) :
    StepTries c ⟨c.context.address, target.toAddress, ready.world.balance c.context.address⟩
      (ready.emit .executor (.selfDestruct c.context.address target.toAddress
        (ready.world.balance c.context.address)))

/-- The call or the creation that a message orders. -/
def messageOrder (m : Message) : Order :=
  match m.recipient with
  | none => .create ⟨m.sender, m.value, m.data, some m.gasLimit⟩
  | some recipient => .call
    { codeAddress := recipient
      transfer := some ⟨m.sender, recipient, m.value⟩
      input := m.data
      targetGas := some m.gasLimit
      withStipend := false
      context := ⟨recipient, m.sender, m.value⟩ }

/-- A transfer in the execution of a message: its own, or one of a frame that it comes to. -/
inductive Tries (ex : Executor) (m : Message) : Transfer → Executor → Prop
  | own {event : Event} {t : Transfer} {trying : Executor}
      (h : OrderTries ((messageStart (ex.ensureAccount m.sender) m).emit .executor event)
        (messageOrder m) t trying) : Tries ex m t trying
  | within {event : Event} {outermost c : Configuration} {t : Transfer} {trying : Executor}
      (hstarts : Starts ((messageStart (ex.ensureAccount m.sender) m).emit .executor event)
        (messageOrder m) outermost)
      (hreaches : Reaches outermost c) (h : StepTries c t trying) : Tries ex m t trying

lemma Enters.bounded {ex entered : Executor} {order : Order} (h : Enters ex order entered)
    (hex : Bounded ex) : Bounded entered := by
  obtain ⟨self, outer, gasLimit, houter, rfl⟩ := h.around
  exact (hex.evolves houter).enter gasLimit

lemma OrderTries.bounded {ex trying : Executor} {order : Order} {t : Transfer}
    (h : OrderTries ex order t trying) (hex : Bounded ex) : Bounded trying := by
  cases h with
  | call henters hdepth ht =>
    exact (henters.bounded hex).evolves (ensureAccount_evolves _ _)
  | create henters hfree => exact (henters.bounded hex).evolves (found_evolves hfree)

lemma StepTries.bounded {c : Configuration} {t : Transfer} {trying : Executor}
    (h : StepTries c t trying) (hc : Bounded c.executor) : Bounded trying := by
  cases h with
  | order horders htries =>
    obtain ⟨grown, hperforms⟩ := horders.performs
    exact htries.bounded (hc.evolves hperforms.evolves)
  | destroy hperforms hinstruction htake => exact (hc.evolves hperforms.evolves).emit _ _

lemma Starts.bounded {ex : Executor} {order : Order} {child : Configuration}
    (h : Starts ex order child) (hex : Bounded ex) : Bounded child.executor := by
  obtain ⟨-, entered, henters, hprepares⟩ := h.prepared
  exact (henters.bounded hex).evolves hprepares.evolves.1

lemma conserves_messageStart (ex : Executor) (m : Message) :
    Conserves ex.world (messageStart ex m).world := by
  refine .of_eq (totalBalance_congr (messageStart_balance ex m)) ?_
  unfold messageStart
  cases m.recipient with
  | none => rfl
  | some recipient => exact (ensure_marked _ m.sender).trans (ensureAccount_marked recipient ex)

lemma Bounded.messageStart {ex : Executor} (hex : Bounded ex) (m : Message) :
    Bounded (messageStart (ex.ensureAccount m.sender) m) := by
  have hensured := hex.evolves (ensureAccount_evolves m.sender ex)
  exact (conserves_messageStart _ m).total_le.trans_lt hensured

lemma Tries.bounded {ex trying : Executor} {m : Message} {t : Transfer} (h : Tries ex m t trying)
    (hex : Bounded ex) : Bounded trying := by
  cases h with
  | @own event _ _ h => exact h.bounded ((hex.messageStart m).emit .executor event)
  | @within event outermost c _ _ hstarts hreaches h =>
    have houtermost := hstarts.bounded ((hex.messageStart m).emit .executor event)
    have hc := hreaches.invariant (P := Bounded) (fun hevolves => .evolves hevolves)
      (fun gasLimit => .enter gasLimit) houtermost
    exact h.bounded hc

lemma totalBalance_settle_le (w : World) : totalBalance w.settle ≤ totalBalance w := by
  apply totalBalance_mono
  intro a
  rw [settle_balance]
  by_cases hmarked : w.isMarked a = true
  · rw [if_pos hmarked]
    exact Nat.zero_le _
  · rw [if_neg hmarked]

lemma totalBalance_settle_unmarked {w : World} (h : w.marked = ∅) :
    totalBalance w.settle = totalBalance w := by
  apply totalBalance_congr
  intro a
  have hmarked : ¬w.isMarked a = true := by simp [World.isMarked, h]
  rw [settle_balance, if_neg hmarked]

/-- A message leaves the world that it found, or the one that its execution came to, settled. -/
lemma applyMessage_world {ex : Executor} {m : Message} {pool : GasPool} {applied : Applied}
    (h : ex.applyMessage m pool = some applied) :
    applied.executor.world = ex.world ∨ ∃ outcome after,
      (ex.ensureAccount m.sender).executeMessage m = some (outcome, after) ∧
        applied.executor.world = after.world.settle := by
  cases hresult : applied.result with
  | error rejection =>
    left
    cases applyMessage_settled h with
    | refused hrejection => rfl
    | outspent hrejection ht =>
      exact ((ensureAccount_evolves m.sender ex).keeps.world.trans ht.extends).revertTo
    | accepted hrejection hsub ht hexit hused => cases hresult
  | ok receipt =>
    obtain ⟨-, outcome, after, used, hexecuted, -, -, -, hsettled⟩ :=
      applyMessage_accepted h hresult
    refine .inr ⟨outcome, after, hexecuted, ?_⟩
    rw [hsettled]
    rfl

/-- The executor that carries out the order of a message, the transaction announced. -/
def messageReady (ex : Executor) (m : Message) : Executor :=
  (messageStart ex m).emit .executor (match m.recipient with
    | none => .transactCreate m.sender m.value m.data m.gasLimit
        ((messageStart ex m).nextCreation m.sender)
    | some recipient => .transactCall m.sender recipient m.value m.data m.gasLimit)

/-- Executing a message is a creation or a call of its sender. -/
lemma executeMessage_cases {ex after : Executor} {m : Message} {outcome : Creation}
    (h : ex.executeMessage m = some (outcome, after)) :
    ∃ last carried, after = carried.emit .executor last ∧
      ((m.recipient = none ∧ (messageReady ex m).create (runs Executor.stepAllowance) m.sender
          m.value m.data (some m.gasLimit) = some (outcome, carried)) ∨
        ∃ recipient result, m.recipient = some recipient ∧
          outcome = ⟨result.exit, none, result.output⟩ ∧
          (messageReady ex m).call (runs Executor.stepAllowance) recipient
            (some ⟨m.sender, recipient, m.value⟩) m.data (some m.gasLimit) false
            ⟨recipient, m.sender, m.value⟩ = some (result, carried)) := by
  unfold Executor.executeMessage at h
  cases hrecipient : m.recipient with
  | none =>
    simp only [hrecipient, Executor.transactCreate] at h
    rw [← messageStart_create hrecipient] at h
    split at h
    · cases h
    · next result ended hcreate =>
      cases h
      refine ⟨_, ended, rfl, .inl ⟨rfl, ?_⟩⟩
      simp only [messageReady, hrecipient]
      exact hcreate
  | some recipient =>
    simp only [hrecipient, Executor.transactCall] at h
    rw [← messageStart_call hrecipient] at h
    split at h
    · cases h
    · next result ended hcall =>
      cases h
      refine ⟨_, ended, rfl, .inr ⟨recipient, result, rfl, rfl, ?_⟩⟩
      simp only [messageReady, hrecipient]
      exact hcall

/-- Executing a message is carrying its order out. -/
lemma executeMessage_order {ex after : Executor} {m : Message} {outcome : Creation}
    (h : ex.executeMessage m = some (outcome, after)) :
    ∃ last carried, (messageOrder m).carryOut (runs Executor.stepAllowance) (messageReady ex m) =
      some carried ∧ after = carried.emit .executor last := by
  obtain ⟨last, carried, rfl, ⟨hrecipient, hcreate⟩ | ⟨recipient, result, hrecipient, -, hcall⟩⟩ :=
    executeMessage_cases h
  · refine ⟨last, carried, ?_, rfl⟩
    simp only [messageOrder, hrecipient, Order.carryOut, hcreate, Option.map_some]
  · refine ⟨last, carried, ?_, rfl⟩
    simp only [messageOrder, hrecipient, Order.carryOut, hcall, Option.map_some]

lemma carryOut_conserves {runner : Runner} (hr : EvolvingRunner runner) {ex after : Executor}
    {order : Order} (h : order.carryOut runner ex = some after) (hex : Bounded ex) :
    Conserves ex.world after.world := by
  cases order with
  | call o =>
    obtain ⟨result, hcall, rfl⟩ := Option.map_eq_some_iff.mp h
    exact (call_evolves hr o.context.address hcall).conserves hex
  | create o =>
    obtain ⟨result, hcreate, rfl⟩ := Option.map_eq_some_iff.mp h
    exact (create_evolves hr hcreate).conserves hex

lemma executeMessage_conserves {ex after : Executor} {m : Message} {outcome : Creation}
    (h : (ex.ensureAccount m.sender).executeMessage m = some (outcome, after))
    (hex : Bounded ex) : Conserves ex.world after.world := by
  obtain ⟨last, carried, hcarried, rfl⟩ := executeMessage_order h
  have hensured := (ensureAccount_evolves m.sender ex).conserves hex
  have hstarted := conserves_messageStart (ex.ensureAccount m.sender) m
  have hordered := carryOut_conserves (runs_evolving _) hcarried
    ((hex.messageStart m).emit .executor _)
  rw [messageReady, emit_world] at hordered
  rw [emit_world]
  exact (hensured.trans hstarted).trans hordered

/-- Where the balances of the world sum to a word, a message leaves at most that sum, and exactly
that sum if no account is marked when it is settled. Every transfer in its execution that is
carried out takes from its source and gives to its target exactly its value. -/
theorem value_is_conserved {ex : Executor} (hbound : totalBalance ex.world < Word.count)
    (m : Message) (pool : GasPool) :
    (IsStandard ex.instructions → Metered ex.rules → ex.rules.maxRefundQuotient ≠ 0 →
      ∃ applied, ex.applyMessage m pool = some applied) ∧
    (∀ applied, ex.applyMessage m pool = some applied →
      totalBalance applied.executor.world ≤ totalBalance ex.world ∧
      ∀ outcome after, (ex.ensureAccount m.sender).executeMessage m = some (outcome, after) →
        after.world.marked = ∅ →
          totalBalance applied.executor.world = totalBalance ex.world) ∧
    ∀ t trying moved, Tries ex m t trying → Executor.transfer t trying = (.ok (), moved) →
      Exact trying.world t := by
  refine ⟨fun hs hm hquotient => applyMessage_ends ⟨hs, hm⟩ hquotient m pool, ?_, ?_⟩
  · intro applied happlied
    obtain hsame | ⟨outcome, after, hexecuted, hworld⟩ := applyMessage_world happlied
    · rw [hsame]
      exact ⟨Nat.le_refl _, fun _ _ _ _ => rfl⟩
    · have hconserves := executeMessage_conserves hexecuted hbound
      rw [hworld]
      constructor
      · exact (totalBalance_settle_le after.world).trans hconserves.total_le
      · intro outcome' after' hexecuted' hmarked
        rw [hexecuted] at hexecuted'
        cases hexecuted'
        exact (totalBalance_settle_unmarked hmarked).trans (hconserves.unmarked hmarked).2
  · intro t trying moved htries htransfer
    exact exact_of_funds (htries.bounded hbound) (transfer_moved htransfer).1

/-- An account with funds beside one whose code destroys it in favour of itself. -/
def destructibleExecutor : Executor :=
  let accounts : Std.ExtTreeMap Address Account :=
    (Std.ExtTreeMap.empty.insert 0xa ⟨0, 5, ∅, #[]⟩).insert 0xb ⟨0, 7, ∅, #[0x30, 0xff]⟩
  .new (.ofAccounts accounts) .homestead .zero

theorem value_is_conserved_destructibleExecutor :
    (∃ applied, destructibleExecutor.applyMessage ⟨0xa, some 0xb, 3, 0, true, #[], 90000⟩
        (.ofNat 100000) = some applied ∧ totalBalance applied.executor.world ≤ 12) ∧
    (∃ applied, destructibleExecutor.applyMessage ⟨0xa, some 0xc, 3, 0, true, #[], 90000⟩
        (.ofNat 100000) = some applied ∧ totalBalance applied.executor.world = 12) ∧
    ∃ trying, Tries destructibleExecutor ⟨0xa, some 0xb, 3, 0, true, #[], 90000⟩ ⟨0xa, 0xb, 3⟩
        trying ∧ Exact trying.world ⟨0xa, 0xb, 3⟩ := by
  have htotal : totalBalance destructibleExecutor.world = 12 := by decide +kernel
  have hbound : totalBalance destructibleExecutor.world < Word.count := by
    rw [htotal]
    decide
  have hinstructions : destructibleExecutor.instructions = .homestead := rfl
  obtain ⟨hends, hconserved, hexact⟩ := value_is_conserved hbound
    ⟨0xa, some 0xb, 3, 0, true, #[], 90000⟩ (.ofNat 100000)
  obtain ⟨hends', hconserved', -⟩ := value_is_conserved hbound
    ⟨0xa, some 0xc, 3, 0, true, #[], 90000⟩ (.ofNat 100000)
  refine ⟨?_, ?_, ?_⟩
  · obtain ⟨applied, happlied⟩ := hends (.inr hinstructions) (metered_ofFork .homestead) (by decide)
    rw [← htotal]
    exact ⟨applied, happlied, (hconserved applied happlied).1⟩
  · obtain ⟨applied, happlied⟩ :=
      hends' (.inr hinstructions) (metered_ofFork .homestead) (by decide)
    have hunmarked : ((destructibleExecutor.ensureAccount 0xa).executeMessage
        ⟨0xa, some 0xc, 3, 0, true, #[], 90000⟩).map (fun r => r.2.world.marked) = some ∅ := by
      decide +kernel
    obtain ⟨⟨outcome, after⟩, hexecuted, hmarked⟩ := Option.map_eq_some_iff.mp hunmarked
    rw [← htotal]
    exact ⟨applied, happlied, (hconserved' applied happlied).2 outcome after hexecuted hmarked⟩
  · obtain ⟨trying, htries, hmoves⟩ : ∃ trying,
        Tries destructibleExecutor ⟨0xa, some 0xb, 3, 0, true, #[], 90000⟩ ⟨0xa, 0xb, 3⟩ trying ∧
          (Executor.transfer ⟨0xa, 0xb, 3⟩ trying).1.toOption = some () := by
      have hown := @Tries.own destructibleExecutor ⟨0xa, some 0xb, 3, 0, true, #[], 90000⟩
        (.transactCall 0xa 0xb 3 #[] 90000) _ _ (.call (.call rfl) rfl rfl)
      exact ⟨_, hown, by decide +kernel⟩
    obtain ⟨-, hshort⟩ | ⟨-, hmoved⟩ := transfer_cases ⟨0xa, 0xb, 3⟩ trying
    · rw [hshort] at hmoves
      cases hmoves
    · exact ⟨trying, htries, hexact _ _ _ htries hmoved⟩

end ContractMachine.Proofs
