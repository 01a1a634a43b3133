import ContractMachine.Proofs.MessageRejection

/-!
# The gas of a block

The messages of a block share a pool. Each that is settled takes the gas it used and no more than
its limit, each that is rejected takes none, and nothing is lost to the bounds of quantities.
-/

namespace ContractMachine.Proofs

lemma Transacted.usedGas_le {ex after : Executor} {m : Message} {outcome : Creation} {used : Nat}
    (h : Transacted ex m outcome after) (hused : after.usedGas? = some used) :
    used ≤ m.gasLimit := by
  have hkeeps := h.evolves.keeps
  have hframe := messageStart_frame ex m
  have hlimit : after.frame.meter.limit = m.gasLimit := by
    rw [hkeeps.limit, hframe]
    rfl
  have hsolvent : Solvent after.frame.meter := by
    apply hkeeps.solvent
    rw [hframe]
    exact solvent_new m.gasLimit
  obtain ⟨-, rfl⟩ := Executor.usedGas?_eq_some_iff.mp hused
  calc after.frame.meter.totalUsedGas - _
      ≤ after.frame.meter.totalUsedGas := Nat.sub_le _ _
    _ ≤ after.frame.meter.limit := hsolvent
    _ = m.gasLimit := hlimit

/-- The pool pays for a message exactly what it used. The gas of a rejected message stays in the
pool, and giving gas back to the pool adds all of it. -/
structure Accounted (pool : GasPool) (m : Message) (applied : Applied) : Prop where
  rejected : ∀ rejection, applied.result = .error rejection → applied.pool = pool
  accepted : ∀ receipt, applied.result = .ok receipt →
    receipt.usedGas ≤ m.gasLimit ∧ applied.pool.gas + receipt.usedGas = pool.gas
  unclipped : ∀ rest, pool.sub m.gasLimit = .ok rest → ∀ amount, amount ≤ m.gasLimit →
    (rest.add amount).gas = rest.gas + amount

lemma sub_ok {pool rest : GasPool} {amount : Nat} (h : pool.sub amount = .ok rest) :
    rest.gas + amount = pool.gas := by
  obtain ⟨rest', hsub, hrest⟩ | ⟨-, hsub⟩ := sub_cases pool amount
  · rw [hsub] at h
    cases h
    exact hrest
  · rw [hsub] at h
    cases h

theorem Settled.accounted {ex : Executor} {m : Message} {pool : GasPool} {applied : Applied}
    (h : Settled ex m pool applied) : Accounted pool m applied := by
  have hunclipped (rest : GasPool) (hsub : pool.sub m.gasLimit = .ok rest) (amount : Nat)
      (hle : amount ≤ m.gasLimit) : (rest.add amount).gas = rest.gas + amount :=
    add_gas (sub_ok hsub) hle
  cases h with
  | refused h => exact ⟨fun _ _ => rfl, nofun, hunclipped⟩
  | outspent h ht => exact ⟨fun _ _ => rfl, nofun, hunclipped⟩
  | @accepted rest outcome after used h hsub ht hexit hused =>
    refine ⟨nofun, ?_, hunclipped⟩
    intro receipt hreceipt
    cases hreceipt
    have hle := ht.usedGas_le hused
    have hgiven := hunclipped rest hsub (m.gasLimit - used) (Nat.sub_le _ _)
    have hrest := sub_ok hsub
    simp only [hgiven]
    omega

/-- A message of a block, the pool that it found, and what applying it came to. -/
structure BlockStep where
  before : GasPool
  message : Message
  applied : Applied

/-- Gas that a step of a block used, none if its message was rejected. -/
def BlockStep.usedGas (s : BlockStep) : Nat :=
  match s.applied.result with
  | .ok receipt => receipt.usedGas
  | .error _ => 0

/-- Applies messages one after the other to an executor and a pool. None says that one of them came
to nothing. -/
def applyBlock : Executor → GasPool → List Message → Option (List BlockStep × Executor × GasPool)
  | ex, pool, [] => some ([], ex, pool)
  | ex, pool, m :: rest =>
    match ex.applyMessage m pool with
    | none => none
    | some applied =>
      (applyBlock applied.executor applied.pool rest).map fun (steps, last, left) =>
        (⟨pool, m, applied⟩ :: steps, last, left)

lemma applyBlock_cons {ex last : Executor} {pool left : GasPool} {m : Message}
    {rest : List Message} {steps : List BlockStep}
    (h : applyBlock ex pool (m :: rest) = some (steps, last, left)) :
    ∃ applied later, ex.applyMessage m pool = some applied ∧
      applyBlock applied.executor applied.pool rest = some (later, last, left) ∧
        steps = ⟨pool, m, applied⟩ :: later := by
  unfold applyBlock at h
  cases happlied : ex.applyMessage m pool with
  | none => simp [happlied] at h
  | some applied =>
    cases hrest : applyBlock applied.executor applied.pool rest with
    | none => simp [happlied, hrest] at h
    | some result =>
      obtain ⟨later, last', left'⟩ := result
      simp only [happlied, hrest, Option.map_some, Option.some.injEq, Prod.mk.injEq] at h
      obtain ⟨rfl, rfl, rfl⟩ := h
      exact ⟨applied, later, rfl, hrest, rfl⟩

/-- One step moves the gas that it used out of the pool. -/
lemma Accounted.moves {pool : GasPool} {m : Message} {applied : Applied}
    (h : Accounted pool m applied) :
    applied.pool.gas + BlockStep.usedGas ⟨pool, m, applied⟩ = pool.gas := by
  unfold BlockStep.usedGas
  cases hresult : applied.result with
  | error rejection => simp only [h.rejected rejection hresult, Nat.add_zero]
  | ok receipt => exact (h.accepted receipt hresult).2

lemma applyBlock_accounted {ex last : Executor} {pool left : GasPool} {messages : List Message}
    {steps : List BlockStep} (h : applyBlock ex pool messages = some (steps, last, left)) :
    steps.map BlockStep.message = messages ∧
      (∀ s ∈ steps, Accounted s.before s.message s.applied) ∧
        left.gas + (steps.map BlockStep.usedGas).sum = pool.gas := by
  induction messages generalizing ex pool steps with
  | nil =>
    simp only [applyBlock, Option.some.injEq, Prod.mk.injEq] at h
    obtain ⟨rfl, rfl, rfl⟩ := h
    refine ⟨rfl, ?_, by simp⟩
    intro s hs
    cases hs
  | cons m rest ih =>
    obtain ⟨applied, later, happlied, hlater, rfl⟩ := applyBlock_cons h
    have hfirst := (applyMessage_settled happlied).accounted
    obtain ⟨hmessages, haccounted, hsum⟩ := ih hlater
    refine ⟨congrArg (m :: ·) hmessages, ?_, ?_⟩
    · intro s hs
      obtain rfl | hs := List.mem_cons.mp hs
      · exact hfirst
      · exact haccounted s hs
    · have hmoves := hfirst.moves
      simp only [List.map_cons, List.sum_cons]
      omega

lemma Settled.ordinary {ex : Executor} {m : Message} {pool : GasPool} {applied : Applied}
    (h : Settled ex m pool applied) (hex : Ordinary ex) : Ordinary applied.executor := by
  have hensured := hex.keeps (ensureAccount_evolves m.sender ex).keeps
  have hstart := hensured.messageStart m
  cases h with
  | refused h => exact hex
  | outspent h ht | accepted h hsub ht hexit hused =>
    have hafter := hstart.keeps ht.evolves.keeps
    exact ⟨hafter.standard, hafter.metered⟩

lemma Settled.rules {ex : Executor} {m : Message} {pool : GasPool} {applied : Applied}
    (h : Settled ex m pool applied) : applied.executor.rules = ex.rules := by
  have hensured := (ensureAccount_evolves m.sender ex).keeps.rules
  cases h with
  | refused h => rfl
  | outspent h ht | accepted h hsub ht hexit hused => exact ht.rules.trans hensured

lemma applyBlock_ends {ex : Executor} (hex : Ordinary ex)
    (hquotient : ex.rules.maxRefundQuotient ≠ 0) (pool : GasPool) (messages : List Message) :
    ∃ result, applyBlock ex pool messages = some result := by
  induction messages generalizing ex pool with
  | nil => exact ⟨_, rfl⟩
  | cons m rest ih =>
    obtain ⟨applied, happlied⟩ := applyMessage_ends hex hquotient m pool
    have hsettled := applyMessage_settled happlied
    have hnext : applied.executor.rules.maxRefundQuotient ≠ 0 := by rwa [hsettled.rules]
    obtain ⟨⟨steps, last, left⟩, hrest⟩ := ih (hsettled.ordinary hex) hnext applied.pool
    refine ⟨(⟨pool, m, applied⟩ :: steps, last, left), ?_⟩
    simp only [applyBlock, happlied, hrest, Option.map_some]

/-- Every message of a block is accounted for, so that what the pool has left and what the accepted
messages used add up to what the pool had. Under metered rules with a quotient that limits refunds
every block comes to its end. -/
theorem block_gas_accounted (ex : Executor) (pool : GasPool) (messages : List Message) :
    (∀ steps last left, applyBlock ex pool messages = some (steps, last, left) →
      steps.map BlockStep.message = messages ∧
        (∀ s ∈ steps, Accounted s.before s.message s.applied) ∧
          left.gas + (steps.map BlockStep.usedGas).sum = pool.gas) ∧
    (IsStandard ex.instructions → Metered ex.rules → ex.rules.maxRefundQuotient ≠ 0 →
      ∃ result, applyBlock ex pool messages = some result) := by
  refine ⟨?_, fun hs hm hquotient => applyBlock_ends ⟨hs, hm⟩ hquotient pool messages⟩
  intro steps last left h
  exact applyBlock_accounted h

/-- One message that is accepted, one out of turn, and one that asks for more than is left. -/
def mixedMessages : List Message :=
  [⟨0xa, some 0xb, 3, 0, true, #[], 90000⟩, ⟨0xa, some 0xb, 1, 0, true, #[], 30000⟩,
    ⟨0xa, none, 0, 1, true, #[], 120000⟩]

theorem block_gas_accounted_mixedMessages :
    ∃ steps last left, applyBlock outspendingExecutor (.ofNat 150000) mixedMessages =
        some (steps, last, left) ∧
      steps.map BlockStep.usedGas = [31761, 0, 0] ∧ left.gas + 31761 = 150000 := by
  obtain ⟨haccounted, hends⟩ :=
    block_gas_accounted outspendingExecutor (.ofNat 150000) mixedMessages
  obtain ⟨⟨steps, last, left⟩, hblock⟩ := hends (.inr rfl) (metered_ofFork .homestead) (by decide)
  obtain ⟨-, -, hsum⟩ := haccounted steps last left hblock
  have hused : steps.map BlockStep.usedGas = [31761, 0, 0] := by
    have hshown : (applyBlock outspendingExecutor (.ofNat 150000) mixedMessages).map
        (fun r => r.1.map BlockStep.usedGas) = some [31761, 0, 0] := by decide +kernel
    rw [hblock, Option.map_some, Option.some.injEq] at hshown
    exact hshown
  refine ⟨steps, last, left, hblock, hused, ?_⟩
  rw [hused] at hsum
  exact hsum

end ContractMachine.Proofs
