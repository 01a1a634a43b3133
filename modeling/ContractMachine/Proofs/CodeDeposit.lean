import ContractMachine.Proofs.CodeOrigins
import ContractMachine.Proofs.LogsAndMarks
import ContractMachine.Proofs.SucceedingOrders
import ContractMachine.Proofs.VettedOperands

/-!
# Paying for the code of a new contract

The init code of a creation can end well and still leave more code than its gas pays for. Then the
rules decide. Either the creation fails and takes everything back that it did, or the contract stays
with all that its init code did, but without code. The price of the code is compared with the gas
that is left before anything is taken, so that neither can wrap, however long the code is.
-/

namespace ContractMachine.Proofs

/-- A creation below the frame comes to the address of this one, with another creator or another
nonce. -/
inductive Repeats (ex : Executor) (o : CreationOrder) (c : Configuration) : Prop
  | intro {c' below : Configuration} {task : Task} {other : CreationOrder} {ready : Executor}
      (hreaches : Reaches c c') (horders : Orders c' task (.create other) ready)
      (hstarts : Starts ready (.create other) below)
      (hother : (other.caller, ready.world.nonce other.caller) ≠
        (o.caller, ex.world.nonce o.caller))
      (hsame : Address.ofCreation other.caller (ready.world.nonce other.caller) =
        Address.ofCreation o.caller (ex.world.nonce o.caller)) : Repeats ex o c

section Outcomes

variable (ex inner : Executor) (o : CreationOrder) (outcome : Creation) (after : Executor)

/-- The contract has its code, and the gas that its price leaves goes back. -/
structure Deployed (halt : Halt) (code : Bytes) : Prop where
  outcome : outcome = ⟨.succeed halt, some (ex.nextCreation o.caller), code⟩
  world : after.world = inner.world.setCode (ex.nextCreation o.caller) code
  stored : after.world.code (ex.nextCreation o.caller) = code
  gas : after.gas + (Order.create o).gas ex + 200 * code.size = ex.gas + inner.gas
  refunded : after.frame.meter.refundedGas =
    Quantity.signedSaturatingAdd ex.frame.meter.refundedGas inner.frame.meter.refundedGas

/-- The creation has failed: its gas is gone, and nothing of it is left but the nonce. -/
structure Forfeited : Prop where
  outcome : outcome = ⟨.fault .outOfGas, none, #[]⟩
  world : after.world = ex.world.setNonce o.caller (ex.world.nonce o.caller + 1)
  nonce : (after.world.nonce o.caller).toNat = (ex.world.nonce o.caller).toNat + 1
  gas : after.gas + (Order.create o).gas ex = ex.gas
  refunded : after.frame.meter.refundedGas = ex.frame.meter.refundedGas

/-- The contract stays without code, and all the gas that is left goes back. -/
structure Uncoded (child : Configuration) : Prop where
  outcome : outcome = ⟨.fault .codeStoreOutOfGas, some (ex.nextCreation o.caller), #[]⟩
  world : after.world = inner.world
  present : after.world.exists? (ex.nextCreation o.caller) = true
  codeless : after.world.code (ex.nextCreation o.caller) = #[] ∨ Repeats ex o child
  gas : after.gas + (Order.create o).gas ex = ex.gas + inner.gas
  refunded : after.frame.meter.refundedGas =
    Quantity.signedSaturatingAdd ex.frame.meter.refundedGas inner.frame.meter.refundedGas

/-- What the creation comes to whose init code ended well as `inner` and returned `code`. -/
def Settles (child : Configuration) (halt : Halt) (code : Bytes) : Prop :=
  if 200 * code.size ≤ inner.gas then Deployed ex inner o outcome after halt code
  else if ex.rules.failsOnUnpaidCode then Forfeited ex o outcome after
  else Uncoded ex inner o outcome after child

end Outcomes

/-- A working meter whose gas is a quantity pays for code of any length that its gas is enough for.
-/
lemma meter_deposit {m : Meter} (hm : m.hasFailed = false) (hgas : m.gas < Quantity.limit)
    (rules : Rules) (length : Nat) :
    (200 * length ≤ m.gas ∧ ∃ paid, m.record rules (.deposit length) = (.ok (), paid) ∧
      paid.gas + 200 * length = m.gas ∧ paid.refundedGas = m.refundedGas) ∨
    m.gas < 200 * length ∧ m.record rules (.deposit length) = (.error .outOfGas, m) := by
  obtain ⟨l, hl⟩ : ∃ l, m.ledger = some l :=
    Option.isSome_iff_exists.mp (by simpa [Meter.hasFailed] using hm)
  have hprice : length * Gas.codeByte = 200 * length := Nat.mul_comm length 200
  have hleft := gas_of_ledger hl
  simp only [Meter.record, hprice]
  by_cases hpays : 200 * length ≤ m.gas
  · left
    have hfits : 200 * length < Quantity.limit := Nat.lt_of_le_of_lt hpays hgas
    have hpaid : (⟨m.limit, some { l with usedGas := l.usedGas + 200 * length }⟩ : Meter).gas =
        m.limit - (l.usedGas + 200 * length) - l.memoryGas := rfl
    refine ⟨hpays, ⟨m.limit, some { l with usedGas := l.usedGas + 200 * length }⟩, ?_, ?_, ?_⟩
    · simp only [if_pos hfits, Meter.take, hl, if_neg (Nat.not_lt.mpr hpays)]
    · omega
    · simp only [Meter.refundedGas, hl]
  · right
    refine ⟨Nat.lt_of_not_le hpays, ?_⟩
    by_cases hfits : 200 * length < Quantity.limit
    · simp only [if_pos hfits, Meter.take, hl, if_pos (Nat.lt_of_not_le hpays)]
    · rw [if_neg hfits]
      rfl

lemma record_deposit {ex : Executor} (hworking : ex.frame.meter.hasFailed = false)
    (hgas : ex.gas < Quantity.limit) (length : Nat) :
    ∃ last, Keeps ex last ∧ last.world = ex.world ∧
      last.frame.meter.refundedGas = ex.frame.meter.refundedGas ∧
      ((200 * length ≤ ex.gas ∧ Executor.record (.deposit length) ex = (.ok (), last) ∧
          last.gas + 200 * length = ex.gas) ∨
        ex.gas < 200 * length ∧ Executor.record (.deposit length) ex = (.error .outOfGas, last) ∧
          last.gas = ex.gas) := by
  refine ⟨_, keeps_record (.deposit length) ex, rfl, ?_⟩
  rw [record_eq]
  obtain ⟨hpays, paid, hrecord, hleft, hrefunded⟩ | ⟨hshort, hrecord⟩ :=
    meter_deposit hworking hgas ex.rules length
  · rw [hrecord]
    exact ⟨hrefunded, .inl ⟨hpays, rfl, hleft⟩⟩
  · rw [hrecord]
    exact ⟨rfl, .inr ⟨hshort, rfl, rfl⟩⟩

section Creations

variable {ex entered inner last : Executor} {o : CreationOrder}
  {child : Configuration}

/-- The init code starts with an account for the contract, which has no code. -/
lemma Starts.founded (h : Starts ex (.create o) child) :
    child.executor.world.exists? (ex.nextCreation o.caller) = true ∧
      child.executor.world.code (ex.nextCreation o.caller) = #[] := by
  obtain ⟨-, entered, -, hprepares⟩ := h.prepared
  constructor
  · cases hprepares with
    | create hfree htransfer =>
      have hmoved := transfer_evolves 0 ⟨o.caller, ex.nextCreation o.caller, o.value⟩
        (entered.onWorld fun w => w.createAccount (ex.nextCreation o.caller))
      rw [htransfer] at hmoved
      refine hmoved.keepsAccounts _ ?_
      show (entered.world.createAccount _).exists? _ = true
      rw [exists?_eq_isSome, createAccount_account?, if_pos rfl]
      rfl
  · rw [hprepares.code]
    cases hprepares with
    | create hfree htransfer => exact code_of_free hfree

/-- No creation below the frame has the creator and the nonce of this one, since the nonce has been
raised. -/
lemma Assigns.repeats (hstarts : Starts ex (.create o) child)
    (h : Assigns (ex.nextCreation o.caller) child) : Repeats ex o child := by
  cases h with
  | @intro c' below task other ready hreaches horders hbelow ha =>
    refine .intro hreaches horders hbelow ?_ ha
    intro hsame
    obtain ⟨hcaller, hnonce⟩ := Prod.mk.inj hsame
    obtain ⟨-, entered, henters, hprepares⟩ := hstarts.prepared
    obtain ⟨grown, hperforms⟩ := horders.performs
    have hraised := henters.nonce o.caller
    have hlater := hreaches.nonce_le o.caller
    rw [hprepares.nonce] at hlater
    rw [hcaller, hperforms.world] at hnonce
    rw [hnonce] at hlater
    simp only [Order.isCreationBy, beq_self_eq_true, if_true] at hraised
    omega

/-- A frame of a creation that is committed gives back what it left, whatever it was given. -/
lemma Enters.commit (henters : Enters ex (.create o) entered) (hkeeps : Keeps entered last) :
    (last.close .commit).world = last.world ∧
      (last.close .commit).gas + (Order.create o).gas ex = ex.gas + last.gas ∧
      (last.close .commit).frame.meter.refundedGas = Quantity.signedSaturatingAdd
        ex.frame.meter.refundedGas last.frame.meter.refundedGas := by
  obtain ⟨l, hl⟩ := henters.working
  obtain ⟨hhanded, outer, rfl, -, hmeter⟩ := henters.meter hl
  have hclosed := close_meter hkeeps (congrArg Meter.ledger hmeter) .commit
  have hlast : last.gas ≤ (Order.create o).gas ex := by
    have hle := gas_le_limit last.frame.meter
    rw [hkeeps.limit] at hle
    exact hle
  have hleft : ex.gas = ex.frame.meter.limit - l.usedGas - l.memoryGas := gas_of_ledger hl
  have hgas : (last.close .commit).gas = ex.frame.meter.limit -
      (l.usedGas + (Order.create o).gas ex - last.gas) - l.memoryGas := by
    rw [Executor.gas, hclosed, hmeter]
    rfl
  refine ⟨close_world .commit hkeeps, ?_, ?_⟩
  · omega
  · rw [hclosed]
    simp only [Meter.refundedGas, restoredLedger, hl]

lemma Enters.forfeit (henters : Enters ex (.create o) entered) (hkeeps : Keeps entered last) :
    Forfeited ex o ⟨.fault .outOfGas, none, #[]⟩ (last.close .discard) := by
  obtain ⟨l, hl⟩ := henters.working
  have hdiscarded := Discarded.intro henters hkeeps
  have hmeter := hdiscarded.meter hl
  have hhanded := (henters.meter hl).1
  have hleft : ex.gas = ex.frame.meter.limit - l.usedGas - l.memoryGas := gas_of_ledger hl
  have hgas : (last.close .discard).gas =
      ex.frame.meter.limit - (l.usedGas + (Order.create o).gas ex) - l.memoryGas := by
    rw [Executor.gas, hmeter]
    rfl
  refine ⟨rfl, hdiscarded.world, ?_, ?_, ?_⟩
  · have hraised := henters.nonce o.caller
    rw [henters.world, ← hdiscarded.world] at hraised
    simpa only [Order.isCreationBy, beq_self_eq_true, if_true] using hraised
  · omega
  · rw [hmeter]
    simp only [Meter.refundedGas, hl]

/-- The init code has neither removed the account of the contract nor given it code. -/
lemma Starts.uncoded {exit : Exit} {m : Machine} {fuel : Nat}
    (hstarts : Starts ex (.create o) child)
    (hrun : run fuel child.context child.machine child.executor = some (exit, m, inner)) :
    inner.world.exists? (ex.nextCreation o.caller) = true ∧
      (inner.world.code (ex.nextCreation o.caller) = #[] ∨ Repeats ex o child) := by
  obtain ⟨hpresent, hcode⟩ := hstarts.founded
  refine ⟨(run_evolves fuel hrun).keepsAccounts _ hpresent, ?_⟩
  by_cases hassigns : Assigns (ex.nextCreation o.caller) child
  · exact .inr (hassigns.repeats hstarts)
  · exact .inl ((run_code fuel hassigns hrun).trans hcode)

/-- The meter of a frame works as long as the frame runs, and never has more than was handed over.
-/
lemma Enters.inside (henters : Enters ex (.create o) entered) (hkeeps : Keeps entered inner)
    (hquantity : ex.gas ≤ Quantity.max) :
    inner.frame.meter.hasFailed = false ∧ inner.gas < Quantity.limit := by
  obtain ⟨l, hl⟩ := henters.working
  have hlimit := hkeeps.limit.trans henters.limit
  obtain ⟨hhanded, outer, rfl, -, -⟩ := henters.meter hl
  refine ⟨hkeeps.hasFailed, ?_⟩
  have hle : inner.gas ≤ inner.frame.meter.limit := gas_le_limit inner.frame.meter
  have hgiven : (Order.create o).gasLimit ex = (Order.create o).gas ex := rfl
  have hmax : Quantity.max + 1 = Quantity.limit := rfl
  omega

/-- Closing the frame of a creation settles it. -/
lemma depositCode_settles (henters : Enters ex (.create o) entered) (hkeeps : Keeps entered inner)
    (hquantity : ex.gas ≤ Quantity.max)
    (huncoded : inner.world.exists? (ex.nextCreation o.caller) = true ∧
      (inner.world.code (ex.nextCreation o.caller) = #[] ∨ Repeats ex o child))
    (halt : Halt) (code : Bytes) : ∃ outcome after,
      Executor.depositCode (ex.nextCreation o.caller) halt code inner = (outcome, after) ∧
        Settles ex inner o outcome after child halt code := by
  obtain ⟨hworking, hgas⟩ := henters.inside hkeeps hquantity
  obtain ⟨last, hlast, hworld, hrefunded, hdeposit⟩ := record_deposit hworking hgas code.size
  have hkept := hkeeps.trans hlast
  have hrules : last.rules = ex.rules := by
    obtain ⟨self, outer, gasLimit, houter, rfl⟩ := henters.around
    exact hkept.rules.trans houter.keeps.rules
  obtain ⟨hclosed, hback, hrefunds⟩ := henters.commit hkept
  have hleaves := henters.leaves hkept
  rw [hworld] at hclosed
  rw [hrefunded] at hrefunds
  obtain ⟨hpays, hrecord, hleft⟩ | ⟨hshort, hrecord, hleft⟩ := hdeposit
  · simp only [Settles, if_pos hpays, Executor.depositCode, hrecord, hleaves]
    refine ⟨_, _, rfl, rfl, ?_, ?_, ?_, hrefunds⟩
    · exact congrArg (World.setCode · _ _) hclosed
    · exact (setCode_code _ _ _ _).trans (if_pos rfl)
    · show (last.close .commit).gas + _ + _ = _
      omega
  · simp only [Settles, if_neg (Nat.not_le.mpr hshort), Executor.depositCode, hrecord, hrules]
    by_cases hfails : ex.rules.failsOnUnpaidCode = true
    · obtain ⟨self, outer, gasLimit, houter, rfl⟩ := id henters.around
      simp only [if_pos hfails, close_failMeter hkept]
      exact ⟨_, _, rfl, henters.forfeit hkept⟩
    · simp only [if_neg hfails, hleaves]
      refine ⟨_, _, rfl, rfl, hclosed, ?_, ?_, ?_, hrefunds⟩
      · rw [hclosed]
        exact huncoded.1
      · rw [hclosed]
        exact huncoded.2
      · rw [hback, hleft]

/-- A creation whose init code ends well is settled by whether the gas that is left pays for the
code, and if it does not, by the rules. -/
theorem create_settles {allowance : Executor → Nat} {halt : Halt} {m : Machine}
    (hquantity : ex.gas ≤ Quantity.max) (hstarts : Starts ex (.create o) child)
    (hrun : runs allowance child.context child.machine child.executor =
      some (.succeed halt, m, inner)) :
    ∃ outcome after, ex.create (runs allowance) o.caller o.value o.initCode o.targetGas =
      some (outcome, after) ∧ Settles ex inner o outcome after child halt m.returnValue := by
  obtain ⟨-, entered, henters, hprepares⟩ := hstarts.prepared
  have hkeeps : Keeps entered inner :=
    hprepares.evolves.1.keeps.trans (runs_evolving allowance hrun).keeps
  obtain ⟨outcome, after, hcloses, hsettles⟩ := depositCode_settles henters hkeeps hquantity
    (hstarts.uncoded hrun) halt m.returnValue
  refine ⟨outcome, after, ?_, hsettles⟩
  cases hstarts with
  | create hopening =>
    simp only [Executor.create, hopening, hrun, Executor.closeCreation, hcloses]

/-- The word that a settled creation pushes is the address that it gives away, or zero. -/
lemma Settles.word {outcome : Creation} {after : Executor} {halt : Halt} {code : Bytes}
    (h : Settles ex inner o outcome after child halt code) :
    foundedWord outcome.exit outcome.created = (outcome.created.map Address.toWord).getD 0 := by
  unfold Settles at h
  repeat' split at h
  all_goals
    rw [h.outcome]
    rfl

end Creations

section Steps

variable {c child : Configuration} {task : Task} {grown taken : Machine}
  {ready inner after : Executor}

/-- What is charged for a task only takes gas. -/
lemma Performs.gas_le (h : Performs c task grown ready) : ready.gas ≤ c.executor.gas := by
  cases h with
  | intro hvetted hcharge hgrow =>
    rw [emit_gas]
    obtain ⟨f, hrefused⟩ | ⟨e, hrecord, he⟩ := charge_cases task.op c.context.address
      c.machine.stack task.memoryEnd c.executor
    · rw [hrefused] at hcharge
      cases hcharge
    · have hgas := record_gas e c.executor
      rw [← hrecord, hcharge] at hgas
      obtain ⟨cost, -, rfl⟩ | ⟨price, -, rfl⟩ := he
      · exact hgas
      · exact hgas

/-- A creation replaces its three operands by one item and changes nothing else of the machine. -/
lemma perform_creation {runner : Runner} {context : Context} {value : Word} {initCode : Bytes}
    {outcome : Creation} (hsupplied : Supplied .create grown)
    (htake : Machine.takeCreation grown = (.ok (value, initCode), taken))
    (h : ready.create runner context.address value initCode none = some (outcome, after)) :
    perform runner .create context grown ready = some (.proceed, withItems
      (foundedWord outcome.exit outcome.created :: grown.stack.items.drop 3) grown, after) := by
  obtain ⟨hoperands, hroom, hcovered⟩ := hsupplied
  obtain ⟨a, offset, length, rest, hitems, -⟩ := exists_three (n := 0) hoperands
  have hfits := (hcovered ⟨offset, length⟩ (by rw [hitems]; exact List.mem_singleton_self _)).fits
  have htaken : Machine.takeCreation grown =
      (.ok (a, grown.memory.read offset.toNat length.toNat), withItems rest grown) := by
    have heq : grown = withItems (a :: offset :: length :: rest) grown := by rw [← hitems]; rfl
    rw [heq]
    exact takeCreation_eq hfits
  have hfree : rest.length < grown.stack.limit := by
    have hheight : grown.stack.height = rest.length + 3 := congrArg List.length hitems
    have hdeclared : (Operation.standard .create).pop = 3 ∧ (Operation.standard .create).push = 1 :=
      ⟨rfl, rfl⟩
    omega
  rw [htaken] at htake
  cases htake
  rw [hitems]
  simp only [perform, takeThen, htaken, h, proceed, finishCreation_eq _ _ hfree,
    List.drop_succ_cons, List.drop_zero]

/-- A creation by an instruction is settled, and its frame goes on with the address of the new
contract, or with zero. -/
theorem step_settles {fuel : Nat} {o : CreationOrder} {halt : Halt} {m : Machine}
    (hs : IsStandard c.executor.instructions) (hquantity : c.executor.gas ≤ Quantity.max)
    (horders : Orders c task (.create o) ready) (hstarts : Starts ready (.create o) child)
    (hrun : run fuel child.context child.machine child.executor = some (.succeed halt, m, inner)) :
    ∃ outcome closed event next, step (run fuel) c.context c.machine c.executor =
        some (.next next (closed.emit .runtime event)) ∧
      Settles ready inner o outcome closed child halt m.returnValue ∧
      next.stack.items =
        (outcome.created.map Address.toWord).getD 0 :: c.machine.stack.items.drop 3 := by
  cases horders with
  | @create grown taken _ value initCode hperforms hinstruction htake =>
    have hgas : ready.gas ≤ Quantity.max := hperforms.gas_le.trans hquantity
    have hruns : runs (fun _ => fuel) child.context child.machine child.executor =
        some (.succeed halt, m, inner) := hrun
    obtain ⟨outcome, closed, hcreate, hsettles⟩ := create_settles hgas hstarts hruns
    have hsupplied := hperforms.supplied hs
    have hoperation := (task_of_standard hs hperforms.vetted.1).2.2
    rw [hinstruction] at hsupplied hoperation
    have hperform := perform_creation hsupplied htake hcreate
    rw [← hinstruction] at hperform
    obtain ⟨ended, hstep⟩ := hperforms.dispatches hperform
    obtain ⟨control, done, carried, event, hsame, hended, -⟩ := hperforms.performed hstep
    rw [hperform] at hsame
    cases hsame
    rw [conclude_opensFrame hoperation rfl] at hstep hended
    have hafter : ended = closed.emit .runtime event := hended
    subst hafter
    refine ⟨outcome, closed, event, _, hstep, hsettles, ?_⟩
    rw [← hsettles.word, ← hperforms.vetted.2]
    rfl

end Steps

/-- A creation by a message is settled as well. -/
theorem executeMessage_settles {ex inner : Executor} {message : Message} {o : CreationOrder}
    {child : Configuration} {halt : Halt} {m : Machine} (horder : messageOrder message = .create o)
    (hquantity : message.gasLimit ≤ Quantity.max)
    (hstarts : Starts (messageReady ex message) (.create o) child)
    (hrun : runs Executor.stepAllowance child.context child.machine child.executor =
      some (.succeed halt, m, inner)) :
    ∃ outcome closed event, ex.executeMessage message =
        some (outcome, closed.emit .executor event) ∧
      Settles (messageReady ex message) inner o outcome closed child halt m.returnValue := by
  rw [← messageReady_gas ex] at hquantity
  obtain ⟨outcome, closed, hcreate, hsettles⟩ := create_settles hquantity hstarts hrun
  unfold messageOrder at horder
  cases hrecipient : message.recipient with
  | some recipient =>
    rw [hrecipient] at horder
    cases horder
  | none =>
    rw [hrecipient] at horder
    cases horder
    have hready : messageReady ex message =
        (ex.reset message.sender message.gasLimit).emit .executor
          (.transactCreate message.sender message.value message.data message.gasLimit
            ((ex.reset message.sender message.gasLimit).nextCreation message.sender)) := by
      simp only [messageReady, hrecipient, messageStart_create hrecipient]
    have hnested : (messageReady ex message).nestedCreation message.sender message.value
        message.data (some message.gasLimit) = some (outcome, closed) := hcreate
    rw [hready] at hnested
    refine ⟨outcome, closed, .exit outcome.exit outcome.output, ?_, hsettles⟩
    simp only [Executor.executeMessage, hrecipient, Executor.transactCreate, hnested]

/-- Whatever orders it, a creation whose init code ends well comes to what the gas left by the init
code decides: it pays for the code and stays, or, as the rules say, it fails or stays without code.
-/
theorem creation_pays_for_its_code :
    (∀ {allowance : Executor → Nat} {ex inner : Executor} {o : CreationOrder}
        {child : Configuration} {halt : Halt} {m : Machine}, ex.gas ≤ Quantity.max →
      Starts ex (.create o) child → runs allowance child.context child.machine child.executor =
        some (.succeed halt, m, inner) →
      ∃ outcome after, ex.create (runs allowance) o.caller o.value o.initCode o.targetGas =
          some (outcome, after) ∧
        Settles ex inner o outcome after child halt m.returnValue) ∧
    (∀ {fuel : Nat} {c child : Configuration} {task : Task} {o : CreationOrder}
        {ready inner : Executor} {halt : Halt} {m : Machine},
      IsStandard c.executor.instructions → c.executor.gas ≤ Quantity.max →
      Orders c task (.create o) ready → Starts ready (.create o) child →
      run fuel child.context child.machine child.executor = some (.succeed halt, m, inner) →
      ∃ outcome closed event next, step (run fuel) c.context c.machine c.executor =
          some (.next next (closed.emit .runtime event)) ∧
        Settles ready inner o outcome closed child halt m.returnValue ∧
        next.stack.items =
          (outcome.created.map Address.toWord).getD 0 :: c.machine.stack.items.drop 3) ∧
    ∀ {ex inner : Executor} {message : Message} {o : CreationOrder} {child : Configuration}
        {halt : Halt} {m : Machine}, messageOrder message = .create o →
      message.gasLimit ≤ Quantity.max → Starts (messageReady ex message) (.create o) child →
      runs Executor.stepAllowance child.context child.machine child.executor =
        some (.succeed halt, m, inner) →
      ∃ outcome closed event, ex.executeMessage message =
          some (outcome, closed.emit .executor event) ∧
        Settles (messageReady ex message) inner o outcome closed child halt m.returnValue :=
  ⟨create_settles, step_settles, executeMessage_settles⟩

/-- Creates a contract with one byte of code, with gas for the init code only. -/
def unpaidMessage : Message := ⟨0xa, none, 0, 0, true, #[0x60, 1, 0x60, 0, 0xf3], 100⟩

/-- There is no account yet. -/
def deserted (rules : Rules) : Executor := .new (.ofAccounts ∅) rules .zero

/-- A frame about to create such a contract with as much gas, under rules that do not let it stay.
-/
def unpaidConfiguration : Configuration where
  context := ⟨0xa, 0xc, 0⟩
  machine := { Machine.start #[0xf0] #[] 1024 4096 with
    memory := ⟨#[0x60, 1, 0x60, 0, 0xf3] ++ Array.replicate 27 0, 4096⟩
    stack := ⟨[0, 0, 5], 1024⟩ }
  executor := (deserted .homestead).reset 0xc 32103

theorem creation_pays_for_its_code_unpaidMessage :
    (∃ outcome after, (deserted .frontier).executeMessage unpaidMessage =
        some (outcome, after) ∧ outcome.exit = .fault .codeStoreOutOfGas ∧
      outcome.created.map after.world.exists? = some true ∧ after.gas = 91) ∧
    ∃ next after, step (run 9) unpaidConfiguration.context unpaidConfiguration.machine
        unpaidConfiguration.executor = some (.next next after) ∧ next.stack.items = [0] ∧
      after.gas = 0 := by
  obtain ⟨-, hstep, hmessage⟩ := creation_pays_for_its_code
  constructor
  · have hends : ((messageOrder unpaidMessage).start?
        (messageReady (deserted .frontier) unpaidMessage)).bind (fun child =>
          (runs Executor.stepAllowance child.context child.machine child.executor).map fun result =>
            (result.1, result.2.1.returnValue.size, result.2.2.gas)) =
        some (.succeed .returned, 1, 91) := by decide +kernel
    obtain ⟨child, hchild, hends⟩ := Option.bind_eq_some_iff.mp hends
    obtain ⟨⟨exit, m, inner⟩, hrun, hresult⟩ := Option.map_eq_some_iff.mp hends
    simp only [Prod.mk.injEq] at hresult
    obtain ⟨rfl, hsize, hgas⟩ := hresult
    obtain ⟨outcome, closed, event, hexecuted, hsettles⟩ :=
      hmessage rfl (by decide) (start?_iff.mp hchild) hrun
    rw [Settles, if_neg (by omega), if_neg (by decide)] at hsettles
    obtain ⟨rfl, -, hpresent, -, hback, -⟩ := hsettles
    refine ⟨_, _, hexecuted, rfl, ?_, ?_⟩
    · rw [Option.map_some, emit_world, hpresent]
    · have hhanded := messageOrder_gas (deserted .frontier) unpaidMessage
      have hgiven := messageReady_gas (deserted .frontier) unpaidMessage
      rw [emit_gas]
      change closed.gas + (messageOrder unpaidMessage).gas _ = _ at hback
      rw [hhanded, hgiven, hgas] at hback
      exact Nat.add_right_cancel (m := 100) hback
  · have hends : (unpaidConfiguration.order?.bind fun ordered =>
        (ordered.1.start? ordered.2).bind fun child =>
          (run 9 child.context child.machine child.executor).map fun result =>
            ((ordered.1.isCreationBy 0xa, ordered.2.rules.failsOnUnpaidCode, ordered.2.gas),
              result.1, result.2.1.returnValue.size, result.2.2.gas)) =
        some ((true, true, 100), .succeed .returned, 1, 91) := by decide +kernel
    obtain ⟨⟨order, ready⟩, horder, hends⟩ := Option.bind_eq_some_iff.mp hends
    obtain ⟨child, hchild, hends⟩ := Option.bind_eq_some_iff.mp hends
    obtain ⟨⟨exit, m, inner⟩, hrun, hresult⟩ := Option.map_eq_some_iff.mp hends
    simp only [Prod.mk.injEq] at hresult
    obtain ⟨⟨hcreation, hfails, hready⟩, rfl, hsize, hgas⟩ := hresult
    obtain ⟨task, horders⟩ := order?_iff.mp horder
    have hinstructions : unpaidConfiguration.executor.instructions = .homestead := rfl
    cases order with
    | call o => cases hcreation
    | create o =>
      obtain ⟨outcome, closed, event, next, hnext, hsettles, hpushed⟩ :=
        hstep (.inr hinstructions) (by decide) horders (start?_iff.mp hchild) hrun
      rw [Settles, if_neg (by omega), if_pos hfails] at hsettles
      obtain ⟨rfl, -, -, hleft, -⟩ := hsettles
      have hhanded : (Order.create o).gas ready = ready.gas := by
        cases horders with
        | create => exact Nat.min_self _
      refine ⟨next, _, hnext, hpushed, ?_⟩
      rw [emit_gas]
      omega

end ContractMachine.Proofs
