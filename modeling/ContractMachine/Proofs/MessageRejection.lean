import ContractMachine.Proofs.Transactions

/-!
# Which messages are rejected

Whether a message is rejected can be told from the world and the pool before it is executed, and
a rejected message changes neither. This holds although the balance of the sender is only looked
at in the course of the execution.
-/

namespace ContractMachine.Proofs

/-- Why a message is to be rejected in this world and by this pool, if it is. -/
def rejection? (w : World) (pool : GasPool) (m : Message) : Option Rejection :=
  if m.checksNonce = true ∧ w.nonce m.sender ≠ m.nonce then
    some (.invalidNonce m.sender (w.nonce m.sender) m.nonce)
  else if w.nonce m.sender = 0xffffffffffffffff then some (.nonceMax m.sender)
  else if pool.gas < m.gasLimit then some (.gasLimitReached ⟨pool.gas, m.gasLimit⟩)
  else if w.balance m.sender < m.value then some (.insufficientBalance m.sender m.value)
  else none

/-- The three checks that come before the execution. -/
lemma rejection?_eq (w : World) (pool : GasPool) (m : Message) :
    rejection? w pool m =
      match m.nonceFault (w.nonce m.sender) with
      | some rejection => some rejection
      | none =>
        if pool.gas < m.gasLimit then some (.gasLimitReached ⟨pool.gas, m.gasLimit⟩)
        else if w.balance m.sender < m.value then some (.insufficientBalance m.sender m.value)
        else none := by
  unfold rejection? Message.nonceFault
  by_cases hnonce : m.checksNonce = true ∧ w.nonce m.sender ≠ m.nonce
  · have hcheck : (m.checksNonce && w.nonce m.sender != m.nonce) = true := by simpa using hnonce
    rw [if_pos hnonce, if_pos hcheck]
  · have hcheck : ¬(m.checksNonce && w.nonce m.sender != m.nonce) = true := by simpa using hnonce
    rw [if_neg hnonce, if_neg hcheck]
    by_cases hmax : w.nonce m.sender = 0xffffffffffffffff
    · rw [if_pos hmax, if_pos hmax]
    · rw [if_neg hmax, if_neg hmax]

lemma rejection?_eq_none {w : World} {pool : GasPool} {m : Message}
    (h : rejection? w pool m = none) :
    (m.checksNonce = true → w.nonce m.sender = m.nonce) ∧
      w.nonce m.sender ≠ 0xffffffffffffffff ∧ m.gasLimit ≤ pool.gas ∧
        ¬w.balance m.sender < m.value := by
  unfold rejection? at h
  split at h
  · cases h
  · next hnonce =>
    split at h
    · cases h
    · next hmax =>
      split at h
      · cases h
      · next hgas =>
        split at h
        · cases h
        · next hfunds =>
          refine ⟨?_, hmax, Nat.le_of_not_lt hgas, hfunds⟩
          intro hchecks
          exact Decidable.byContradiction fun hne => hnonce ⟨hchecks, hne⟩

lemma pool_ext {p q : GasPool} (h : p.gas = q.gas) : p = q := by
  obtain ⟨gas, hgas⟩ := p
  obtain ⟨gas', hgas'⟩ := q
  simp only at h
  subst h
  rfl

/-- A pool gives out what it has, and refuses what it does not have. -/
lemma sub_cases (pool : GasPool) (amount : Nat) :
    (∃ rest, pool.sub amount = .ok rest ∧ rest.gas + amount = pool.gas) ∨
      (pool.gas < amount ∧ pool.sub amount = .error ⟨pool.gas, amount⟩) := by
  unfold GasPool.sub
  by_cases hle : amount ≤ pool.gas
  · rw [if_pos hle]
    exact .inl ⟨_, rfl, Nat.sub_add_cancel hle⟩
  · rw [if_neg hle]
    exact .inr ⟨by omega, rfl⟩

/-- Adding never clips what was taken out of the pool before. -/
lemma add_gas {pool rest : GasPool} {taken amount : Nat} (hrest : rest.gas + taken = pool.gas)
    (hle : amount ≤ taken) : (rest.add amount).gas = rest.gas + amount := by
  have hmax := pool.gas_le
  simp only [GasPool.add, Quantity.saturatingAdd]
  omega

lemma Transacted.rules {ex after : Executor} {m : Message} {outcome : Creation}
    (h : Transacted ex m outcome after) : after.rules = ex.rules :=
  h.evolves.keeps.rules.trans (messageStart_rules ex m)

lemma Transacted.extends {ex after : Executor} {m : Message} {outcome : Creation}
    (h : Transacted ex m outcome after) : Extends ex.world after.world :=
  (messageStart_extends ex m).trans h.evolves.keeps.world

/-- The three ends of a message: it is rejected before it is executed, it is rejected because its
sender turned out not to have the funds, or it is settled. -/
inductive Settled (ex : Executor) (m : Message) (pool : GasPool) : Applied → Prop
  | refused {rejection : Rejection} (h : rejection? ex.world pool m = some rejection) :
    Settled ex m pool ⟨.error rejection, ex, pool⟩
  | outspent {outcome : Creation} {after : Executor}
    (h : rejection? ex.world pool m = some (.insufficientBalance m.sender m.value))
    (ht : Transacted (ex.ensureAccount m.sender) m outcome after) :
    Settled ex m pool ⟨.error (.insufficientBalance m.sender m.value),
      after.onWorld fun w => w.revertTo ex.world.snapshot, pool⟩
  | accepted {rest : GasPool} {outcome : Creation} {after : Executor} {used : Nat}
    (h : rejection? ex.world pool m = none) (hsub : pool.sub m.gasLimit = .ok rest)
    (ht : Transacted (ex.ensureAccount m.sender) m outcome after)
    (hexit : outcome.exit ≠ .fault .outOfFund) (hused : after.usedGas? = some used) :
    Settled ex m pool ⟨.ok ⟨outcome.output, !outcome.exit.isSuccess, used, outcome.exit,
      outcome.created⟩, after.onWorld World.settle, rest.add (m.gasLimit - used)⟩

/-- An execution that did not run out of funds is settled once it can be told what it used. -/
lemma settleMessage_eq_some {after : Executor} {m : Message} {rest : GasPool} {snapshot : Nat}
    {outcome : Creation} {applied : Applied} (hexit : outcome.exit ≠ .fault .outOfFund)
    (h : after.settleMessage m rest snapshot outcome = some applied) :
    ∃ used, after.usedGas? = some used ∧
      applied = ⟨.ok ⟨outcome.output, !outcome.exit.isSuccess, used, outcome.exit,
        outcome.created⟩, after.onWorld World.settle, rest.add (m.gasLimit - used)⟩ := by
  rw [Executor.settleMessage, if_neg hexit, Option.map_eq_some_iff] at h
  obtain ⟨used, hused, rfl⟩ := h
  exact ⟨used, hused, rfl⟩

theorem applyMessage_settled {ex : Executor} {m : Message} {pool : GasPool} {applied : Applied}
    (h : ex.applyMessage m pool = some applied) : Settled ex m pool applied := by
  unfold Executor.applyMessage at h
  have hrejection := rejection?_eq ex.world pool m
  cases hfault : m.nonceFault (ex.world.nonce m.sender) with
  | some rejection =>
    simp only [hfault, Option.some.injEq] at h hrejection
    subst h
    exact .refused hrejection
  | none =>
    simp only [hfault] at h hrejection
    obtain ⟨rest, hsub, hrest⟩ | ⟨hless, hsub⟩ := sub_cases pool m.gasLimit
    · have henough : ¬pool.gas < m.gasLimit := by omega
      rw [if_neg henough] at hrejection
      simp only [hsub] at h
      cases hexecuted : (ex.ensureAccount m.sender).executeMessage m with
      | none => simp [hexecuted] at h
      | some result =>
        obtain ⟨outcome, after⟩ := result
        have ht := executeMessage_transacted hexecuted
        simp only [hexecuted] at h
        by_cases hexit : outcome.exit = .fault .outOfFund
        · have hshort := ht.outOfFund hexit
          rw [ensureAccount_balance] at hshort
          have hback : rest.add m.gasLimit = pool := by
            apply pool_ext
            rw [add_gas hrest (Nat.le_refl _), hrest]
          rw [if_pos hshort] at hrejection
          rw [Executor.settleMessage, if_pos hexit, hback] at h
          cases h
          exact .outspent hrejection ht
        · have hfunds : ¬ex.world.balance m.sender < m.value := by
            intro hshort
            rw [← ensureAccount_balance ex m.sender m.sender] at hshort
            -- The execution is a function, so it cannot have ended in any other way.
            obtain ⟨outcome', after', hshown, houtOfFund⟩ := executeMessage_insufficient hshort
            rw [hexecuted] at hshown
            cases hshown
            exact hexit houtOfFund
          rw [if_neg hfunds] at hrejection
          obtain ⟨used, hused, rfl⟩ := settleMessage_eq_some hexit h
          exact .accepted hrejection hsub ht hexit hused
    · rw [if_pos hless] at hrejection
      simp only [hsub, Option.some.injEq] at h
      subst h
      exact .refused hrejection

/-- An accepted message was executed, and its execution settled. -/
lemma applyMessage_accepted {ex : Executor} {m : Message} {pool : GasPool} {applied : Applied}
    {receipt : Receipt} (h : ex.applyMessage m pool = some applied)
    (hresult : applied.result = .ok receipt) :
    rejection? ex.world pool m = none ∧ ∃ outcome after used,
      (ex.ensureAccount m.sender).executeMessage m = some (outcome, after) ∧
      outcome.exit ≠ .fault .outOfFund ∧ after.usedGas? = some used ∧
      receipt = ⟨outcome.output, !outcome.exit.isSuccess, used, outcome.exit, outcome.created⟩ ∧
      applied.executor = after.onWorld World.settle := by
  constructor
  · cases applyMessage_settled h with
    | refused hrejection | outspent hrejection ht => cases hresult
    | accepted hrejection hsub ht hexit hused => exact hrejection
  · unfold Executor.applyMessage at h
    split at h
    · cases h
      cases hresult
    · split at h
      · cases h
        cases hresult
      · split at h
        · cases h
        · next outcome after hexecuted =>
          by_cases hexit : outcome.exit = .fault .outOfFund
          · rw [Executor.settleMessage, if_pos hexit] at h
            cases h
            cases hresult
          · obtain ⟨used, hused, rfl⟩ := settleMessage_eq_some hexit h
            cases hresult
            exact ⟨outcome, after, used, hexecuted, hexit, hused, rfl, rfl⟩

/-- A message that is to be rejected is rejected, whether or not executions end. -/
lemma applyMessage_of_rejection {ex : Executor} {m : Message} {pool : GasPool}
    {rejection : Rejection} (h : rejection? ex.world pool m = some rejection) :
    ∃ applied, ex.applyMessage m pool = some applied := by
  unfold Executor.applyMessage
  rw [rejection?_eq] at h
  cases hfault : m.nonceFault (ex.world.nonce m.sender) with
  | some rejection => exact ⟨_, rfl⟩
  | none =>
    simp only [hfault] at h
    obtain ⟨rest, hsub, hrest⟩ | ⟨hless, hsub⟩ := sub_cases pool m.gasLimit
    · have henough : ¬pool.gas < m.gasLimit := by omega
      rw [if_neg henough] at h
      by_cases hshort : ex.world.balance m.sender < m.value
      · rw [← ensureAccount_balance ex m.sender m.sender] at hshort
        obtain ⟨outcome, after, hexecuted, houtOfFund⟩ := executeMessage_insufficient hshort
        simp only [hsub, hexecuted, Executor.settleMessage, if_pos houtOfFund]
        exact ⟨_, rfl⟩
      · rw [if_neg hshort] at h
        cases h
    · simp only [hsub]
      exact ⟨_, rfl⟩

/-- A rejected message changes neither the world nor the pool. -/
lemma applyMessage_rejected {ex : Executor} {m : Message} {pool : GasPool} {rejection : Rejection}
    (h : rejection? ex.world pool m = some rejection) :
    ∃ after, ex.applyMessage m pool = some ⟨.error rejection, after, pool⟩ ∧
      after.world = ex.world := by
  obtain ⟨applied, happlied⟩ := applyMessage_of_rejection h
  rw [happlied]
  cases applyMessage_settled happlied with
  | refused hrefused =>
    rw [hrefused, Option.some.injEq] at h
    subst h
    exact ⟨ex, rfl, rfl⟩
  | outspent houtspent ht =>
    rw [houtspent, Option.some.injEq] at h
    subst h
    refine ⟨_, rfl, ?_⟩
    have hextends := (ensureAccount_evolves m.sender ex).keeps.world.trans ht.extends
    exact hextends.revertTo
  | accepted haccepted hsub ht hexit hused =>
    rw [haccepted] at h
    cases h

/-- A message that is not to be rejected is accepted. -/
lemma accepted_of_rejection?_eq_none {ex : Executor} {m : Message} {pool : GasPool}
    {applied : Applied} (hnone : rejection? ex.world pool m = none)
    (happlied : ex.applyMessage m pool = some applied) :
    ∃ receipt, applied.result = .ok receipt ∧ receipt.exit ≠ .fault .outOfFund := by
  cases applyMessage_settled happlied with
  | refused h | outspent h ht =>
    rw [h] at hnone
    cases hnone
  | accepted h hsub ht hexit hused => exact ⟨_, rfl, hexit⟩

/-- Under metered rules every message is rejected or settled, if there is a quotient that limits
refunds. -/
lemma applyMessage_ends {ex : Executor} (hex : Ordinary ex)
    (hquotient : ex.rules.maxRefundQuotient ≠ 0) (m : Message) (pool : GasPool) :
    ∃ applied, ex.applyMessage m pool = some applied := by
  have hensured := hex.keeps (ensureAccount_evolves m.sender ex).keeps
  obtain ⟨outcome, after, hexecuted⟩ := executeMessage_ends hensured m
  unfold Executor.applyMessage
  cases m.nonceFault (ex.world.nonce m.sender) with
  | some rejection => exact ⟨_, rfl⟩
  | none =>
    cases pool.sub m.gasLimit with
    | error shortage => exact ⟨_, rfl⟩
    | ok rest =>
      have hrules : after.rules = ex.rules :=
        (executeMessage_transacted hexecuted).rules.trans
          (ensureAccount_evolves m.sender ex).keeps.rules
      have hused := Executor.usedGas?_eq_some_iff.mpr ⟨hrules ▸ hquotient, rfl⟩
      simp only [hexecuted, Executor.settleMessage, hused, Option.map_some]
      split <;> exact ⟨_, rfl⟩

/-- A message is rejected exactly for the first reason that the world and the pool give, and then
it changes neither of them. Every other message is accepted, and it ends under metered rules with a
quotient that limits refunds. No frame ends for want of funds, so that no code can have a message
rejected. -/
theorem applyMessage_exact (ex : Executor) (m : Message) (pool : GasPool) :
    (∀ rejection, rejection? ex.world pool m = some rejection →
      ∃ after, ex.applyMessage m pool = some ⟨.error rejection, after, pool⟩ ∧
        after.world = ex.world) ∧
    (rejection? ex.world pool m = none →
      (∀ applied, ex.applyMessage m pool = some applied →
        ∃ receipt, applied.result = .ok receipt ∧ receipt.exit ≠ .fault .outOfFund) ∧
      (IsStandard ex.instructions → Metered ex.rules → ex.rules.maxRefundQuotient ≠ 0 →
        ∃ applied, ex.applyMessage m pool = some applied)) ∧
    ∀ fuel context machine (start : Executor) exit last after,
      run fuel context machine start = some (exit, last, after) → exit ≠ .fault .outOfFund := by
  refine ⟨fun _ hrejection => applyMessage_rejected hrejection, ?_, ?_⟩
  · intro hnone
    exact ⟨fun _ happlied => accepted_of_rejection?_eq_none hnone happlied,
      fun hs hm hquotient => applyMessage_ends ⟨hs, hm⟩ hquotient m pool⟩
  · intro fuel context machine start exit last after hrun
    exact runner_ne_outOfFund (runs_ownFault fun _ => fuel) hrun

/-- An account with funds beside one whose code calls with more value than it ever has. -/
def outspendingExecutor : Executor :=
  let code : Bytes := #[0x60, 0, 0x60, 0, 0x60, 0, 0x60, 0, 0x60, 9, 0x60, 0xc, 0x60, 0, 0xf1]
  let accounts : Std.ExtTreeMap Address Account :=
    (Std.ExtTreeMap.empty.insert 0xa ⟨0, 5, ∅, #[]⟩).insert 0xb ⟨0, 0, ∅, code⟩
  .new (.ofAccounts accounts) .homestead .zero

theorem applyMessage_exact_outspendingExecutor :
    (∃ after, outspendingExecutor.applyMessage ⟨0xa, some 0xb, 9, 0, true, #[], 90000⟩
        (.ofNat 100000) =
          some ⟨.error (.insufficientBalance 0xa 9), after, .ofNat 100000⟩ ∧
      after.world = outspendingExecutor.world) ∧
    (∃ applied receipt, outspendingExecutor.applyMessage ⟨0xa, some 0xb, 3, 0, true, #[], 90000⟩
        (.ofNat 100000) = some applied ∧
      applied.result = .ok receipt ∧ receipt.exit ≠ .fault .outOfFund) ∧
    ∃ exit last after, run 9 ⟨0xb, 0xa, 0⟩
        (outspendingExecutor.machine (outspendingExecutor.world.code 0xb) #[])
          (outspendingExecutor.reset 0xa 90000) = some (exit, last, after) ∧
      exit ≠ .fault .outOfFund := by
  obtain ⟨hrejected, -, hruns⟩ := applyMessage_exact outspendingExecutor
    ⟨0xa, some 0xb, 9, 0, true, #[], 90000⟩ (.ofNat 100000)
  obtain ⟨-, haccepted, -⟩ := applyMessage_exact outspendingExecutor
    ⟨0xa, some 0xb, 3, 0, true, #[], 90000⟩ (.ofNat 100000)
  refine ⟨hrejected _ (by decide +kernel), ?_, ?_⟩
  · obtain ⟨hok, hends⟩ := haccepted (by decide +kernel)
    obtain ⟨applied, happlied⟩ := hends (.inr rfl) (metered_ofFork .homestead) (by decide)
    obtain ⟨receipt, hresult, hexit⟩ := hok applied happlied
    exact ⟨applied, receipt, happlied, hresult, hexit⟩
  · have hstopped : (run 9 ⟨0xb, 0xa, 0⟩
        (outspendingExecutor.machine (outspendingExecutor.world.code 0xb) #[])
          (outspendingExecutor.reset 0xa 90000)).map (fun r => r.1) = some (.succeed .stopped) := by
      decide +kernel
    obtain ⟨⟨exit, last, after⟩, hrun, -⟩ := Option.map_eq_some_iff.mp hstopped
    exact ⟨exit, last, after, hrun, hruns _ _ _ _ _ _ _ hrun⟩

/-- An executor under the rules of a fork but for refunds, which a division by zero limits. -/
def unlimitedRefunds : Executor :=
  .new (.ofAccounts (Std.ExtTreeMap.empty.insert 0xa ⟨0, 5, ∅, #[]⟩))
    { Rules.homestead with maxRefundQuotient := 0 } .zero

/-- There is no reason to reject a message and its execution ends well, but it cannot be told what
gas it used. -/
theorem applyMessage_unlimitedRefunds :
    let m : Message := ⟨0xa, some 0xb, 3, 0, true, #[], 21000⟩
    IsStandard unlimitedRefunds.instructions ∧
      rejection? unlimitedRefunds.world (.ofNat 100000) m = none ∧
      (((unlimitedRefunds.ensureAccount m.sender).executeMessage m).map fun result =>
        (result.1.exit, result.2.usedGas?)) = some (.succeed .stopped, none) ∧
      unlimitedRefunds.applyMessage m (.ofNat 100000) = none := by
  refine ⟨.inr rfl, by decide +kernel, by decide +kernel, ?_⟩
  exact Option.isNone_iff_eq_none.mp (by decide +kernel)

end ContractMachine.Proofs
