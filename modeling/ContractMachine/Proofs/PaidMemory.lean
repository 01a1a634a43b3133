import ContractMachine.Execution.Stepwise
import ContractMachine.Proofs.FrameTree
import ContractMachine.Proofs.MachineLayout
import Mathlib.Order.MinMax

/-!
# Memory is paid for

The memory of a frame and the meter that counts its price are grown by different functions, one
after the other. At every step they agree: a frame has as many words of memory as its meter has
counted, and what the frames below it do changes neither.
-/

namespace ContractMachine.Proofs

/-- The price of a memory of `count` words. -/
def memoryPrice (count : Nat) : Nat := 3 * count + count * count / 512

/-- What the meter of the frame has counted for memory, none once it has failed. -/
def paidMemory (ex : Executor) : Option Nat := ex.frame.meter.ledger.map Ledger.memoryGas

/-- The memory has `count` words, and these are paid for. -/
structure PaysFor (count : Nat) (m : Machine) (ex : Executor) : Prop where
  size : m.memory.size = 32 * count
  paid : paidMemory ex = some (memoryPrice count)
  bounded : count * count < Quantity.limit

lemma memoryPrice_mono : Monotone memoryPrice := by
  intro a b h
  have hsquare : a * a / 512 ≤ b * b / 512 := Nat.div_le_div_right (Nat.mul_le_mul h h)
  unfold memoryPrice
  omega

lemma memoryCost_ok {count total : Nat} (h : Gas.memoryCost count = .ok total) :
    total = memoryPrice count ∧ count * count < Quantity.limit := by
  rw [Gas.memoryCost_eq] at h
  by_cases hsquare : count * count < Quantity.limit
  · rw [if_pos hsquare] at h
    have htotal := bounded_eq h
    refine ⟨?_, hsquare⟩
    rw [htotal, Gas.memoryWord, Gas.memoryDivisor, memoryPrice, Nat.mul_comm count 3]
  · rw [if_neg hsquare] at h
    cases h

/-- The words that a task needs. -/
def neededWords (memoryEnd : Option Nat) : Nat := Gas.words (memoryEnd.getD 0)

lemma max_neededWords_none (count : Nat) : max count (neededWords none) = count :=
  Nat.max_eq_left (Nat.zero_le count)

lemma memoryBill_ok {count total : Nat} {memoryEnd : Option Nat}
    (hcount : count * count < Quantity.limit)
    (h : Meter.memoryBill (memoryPrice count) memoryEnd = .ok total) :
    total = memoryPrice (max count (neededWords memoryEnd)) ∧
      max count (neededWords memoryEnd) * max count (neededWords memoryEnd) < Quantity.limit := by
  cases memoryEnd with
  | none =>
    have hsame : memoryPrice count = total := by simpa [Meter.memoryBill] using h
    rw [max_neededWords_none]
    exact ⟨hsame.symm, hcount⟩
  | some stop =>
    cases hcost : Gas.memoryCost (Gas.words stop) with
    | error f => simp [Meter.memoryBill, hcost, bind, Except.bind] at h
    | ok cost =>
      have htotal : max (memoryPrice count) cost = total := by
        simpa [Meter.memoryBill, hcost, bind, Except.bind, pure, Except.pure] using h
      obtain ⟨rfl, hsquare⟩ := memoryCost_ok hcost
      rw [show neededWords (some stop) = Gas.words stop from rfl, memoryPrice_mono.map_max]
      refine ⟨htotal.symm, ?_⟩
      obtain hle | hle := Nat.le_total count (Gas.words stop)
      · rw [Nat.max_eq_right hle]
        exact hsquare
      · rw [Nat.max_eq_left hle]
        exact hcount

lemma record_ledgers {e : Entry} {ex paid : Executor}
    (h : Executor.record e ex = (.ok (), paid)) :
    ∃ l l', ex.frame.meter.ledger = some l ∧ paid.frame.meter.ledger = some l' ∧
      Booked ex.rules ex.frame.meter l e l' := by
  rw [record_eq, Prod.mk.injEq] at h
  obtain ⟨hresult, rfl⟩ := h
  obtain ⟨l, hl, l', hmeter, hbooked⟩ := record_booked (Prod.ext hresult rfl)
  exact ⟨l, l', hl, congrArg Meter.ledger hmeter, hbooked⟩

lemma paidMemory_unpriced {e : Entry} (he : ∀ price memoryEnd, e ≠ .priced price memoryEnd)
    (ex : Executor) : paidMemory (Executor.record e ex).2 = paidMemory ex := by
  obtain ⟨f, h⟩ | ⟨l, l', hl, h, hbooked⟩ := record_cases ex.rules ex.frame.meter e
  · simp only [record_eq, h, paidMemory]
  · simp only [record_eq, h, paidMemory, hl, Option.map_some]
    cases hbooked with
    | priced hbill => exact absurd rfl (he _ _)
    | _ => rfl

/-- A task that is charged for pays for the memory it needs beyond what is paid already. -/
lemma charge_paysFor {op : Opcode} {address : Address} {stack : Stack} {memoryEnd : Option Nat}
    {ex paid : Executor} {count : Nat} (hpaid : paidMemory ex = some (memoryPrice count))
    (hcount : count * count < Quantity.limit)
    (h : Executor.charge op address stack memoryEnd ex = (.ok (), paid)) :
    paidMemory paid = some (memoryPrice (max count (neededWords memoryEnd))) ∧
      max count (neededWords memoryEnd) * max count (neededWords memoryEnd) < Quantity.limit := by
  have hpriced {price : Price} (h : Executor.record (.priced price memoryEnd) ex = (.ok (), paid)) :
      paidMemory paid = some (memoryPrice (max count (neededWords memoryEnd))) ∧
        max count (neededWords memoryEnd) * max count (neededWords memoryEnd) <
          Quantity.limit := by
    obtain ⟨l, l', hl, hl', hbooked⟩ := record_ledgers h
    have hbefore : l.memoryGas = memoryPrice count := by simpa [paidMemory, hl] using hpaid
    cases hbooked with
    | @priced _ _ b hbill =>
      rw [hbefore] at hbill
      obtain ⟨hgas, hsquare⟩ := memoryBill_ok hcount (bill_ok hbill).2.1
      refine ⟨?_, hsquare⟩
      simp only [paidMemory, hl', Option.map_some, hgas]
  unfold Executor.charge at h
  split at h
  -- What has a fixed cost needs no memory, so that nothing is counted for it.
  · next cost hstatic =>
    have hsame := paidMemory_unpriced (e := .cost cost) (fun _ _ hno => by cases hno) ex
    rw [h, hpaid] at hsame
    rw [max_neededWords_none]
    exact ⟨hsame, hcount⟩
  · cases hprice : ex.price op address stack with
    | error f => simp [hprice] at h
    | ok price =>
      rw [hprice] at h
      exact hpriced h

lemma grow_size {memoryEnd : Option Nat} {m grown : Machine} {count : Nat}
    (hsize : m.memory.size = 32 * count) (h : Machine.grow memoryEnd m = (.ok (), grown)) :
    grown.memory.size = 32 * max count (neededWords memoryEnd) := by
  cases memoryEnd with
  | none =>
    simp only [Machine.grow, Action.pure_apply, Prod.mk.injEq, true_and] at h
    rw [← h, max_neededWords_none, hsize]
  | some stop =>
    have hneeded : neededWords (some stop) = (stop + 31) / 32 := rfl
    obtain ⟨code, input, position, start, last, jumps, ⟨data, limit⟩, stack⟩ := m
    have hdata : data.size = 32 * count := hsize
    simp only [Machine.grow, Machine.onMemory, Memory.resize_eq] at h
    by_cases hcovered : stop ≤ data.size
    · rw [if_pos hcovered, Prod.mk.injEq] at h
      rw [← h.2, hneeded]
      show data.size = _
      omega
    · rw [if_neg hcovered] at h
      split at h
      · simp at h
      · split at h
        · simp at h
        · simp only [Prod.mk.injEq, true_and] at h
          rw [← h, hneeded]
          simp only [Memory.size, Array.size_append, Array.size_replicate, Quantity.wordAlign]
          omega

/-- A task that is ready to be performed has its memory, and has paid for it. -/
theorem Performs.paysFor {c : Configuration} {task : Task} {grown : Machine} {ready : Executor}
    {count : Nat} (hc : PaysFor count c.machine c.executor) (h : Performs c task grown ready) :
    PaysFor (max count (neededWords task.memoryEnd)) grown ready := by
  cases h with
  | intro hvetted hcharge hgrow =>
    obtain ⟨hpaid, hbounded⟩ := charge_paysFor hc.paid hc.bounded hcharge
    refine ⟨grow_size hc.size hgrow, ?_, hbounded⟩
    rw [paidMemory, emit_frame]
    exact hpaid

@[simp] lemma paidMemory_emit (ex : Executor) (listener : Listener) (event : Event) :
    paidMemory (ex.emit listener event) = paidMemory ex := by
  rw [paidMemory, paidMemory, emit_frame]

lemma paidMemory_cost {amount : Nat} {ex mid : Executor} {event : Event}
    {result : Except Fault Unit}
    (h : Executor.record (.cost amount) (ex.emit .executor event) = (result, mid)) :
    paidMemory mid = paidMemory ex := by
  have hsame := paidMemory_unpriced (e := .cost amount) (fun _ _ hno => by cases hno)
    (ex.emit .executor event)
  rw [h, paidMemory_emit] at hsame
  exact hsame

lemma paidMemory_recordAll {entries : List Entry}
    (hentries : ∀ e ∈ entries, ∀ price memoryEnd, e ≠ .priced price memoryEnd) (ex : Executor) :
    paidMemory (Executor.recordAll entries ex).2 = paidMemory ex := by
  induction entries generalizing ex with
  | nil => rfl
  | cons e rest ih =>
    have hfirst := paidMemory_unpriced (hentries e List.mem_cons_self) ex
    simp only [Executor.recordAll, Action.bind_apply]
    cases hr : Executor.record e ex with
    | mk result mid =>
      rw [hr] at hfirst
      cases result with
      | error f => exact hfirst
      | ok u =>
        rw [ih (fun e he => hentries e (List.mem_cons_of_mem _ he)) mid]
        exact hfirst

/-- A frame that is closed leaves the memory of the frame around it paid as it was. -/
lemma paidMemory_close {ex inner : Executor} {gasLimit : Nat} (closing : Closing)
    (h : Keeps (ex.enter gasLimit false) inner) :
    paidMemory (inner.close closing) = paidMemory ex := by
  rw [Executor.close, leave_eq closing h, paidMemory_recordAll]
  · rfl
  · intro e he
    cases closing <;> simp only [Frame.giveBack, List.mem_cons, List.not_mem_nil, or_false] at he
    · obtain rfl | rfl := he <;> simp
    · subst he
      simp

lemma paidMemory_call {runner : Runner} (hr : EvolvingRunner runner) {ex ex' : Executor}
    {codeAddress : Address} {t : Option Transfer} {input : Bytes} {targetGas : Option Nat}
    {withStipend : Bool} {context : Context} {outcome : CallOutcome}
    (h : ex.call runner codeAddress t input targetGas withStipend context = some (outcome, ex')) :
    paidMemory ex' = paidMemory ex := by
  cases call_bracket hr h with
  | unpaid hpay hexit => exact paidMemory_cost hpay
  | closed hpay hinner hclosing =>
    rw [paidMemory_close _ hinner.keeps]
    exact paidMemory_cost hpay

lemma paidMemory_create {runner : Runner} (hr : EvolvingRunner runner) {ex ex' : Executor}
    {caller : Address} {value : Word} {initCode : Bytes} {targetGas : Option Nat}
    {outcome : Creation}
    (h : ex.create runner caller value initCode targetGas = some (outcome, ex')) :
    paidMemory ex' = paidMemory ex := by
  have hclosed {event : Event} {mid inner : Executor} (closing : Closing)
      (hpay : Executor.record (.cost (min ex.gas (targetGas.getD ex.gas)))
        (ex.emit .executor event) = (.ok (), mid))
      (hinner : Evolves (ex.nextCreation caller) ((raiseNonce caller mid).enter
        (min ex.gas (targetGas.getD ex.gas)) false) inner) :
      paidMemory (inner.close closing) = paidMemory ex := by
    rw [paidMemory_close closing hinner.keeps]
    show paidMemory mid = paidMemory ex
    exact paidMemory_cost hpay
  have hbracket := creation_bracket hr h
  generalize outcome.exit = exit at hbracket
  cases hbracket with
  | refused hfault => exact paidMemory_emit _ _ _
  | unpaid hfault hpay => exact paidMemory_cost hpay
  | founded halt code hfault hpay hinner => exact hclosed _ hpay hinner
  | withoutCode hfault hpay hinner => exact hclosed _ hpay hinner
  | failed hfault hpay hinner hexit hclosing => exact hclosed _ hpay hinner

/-- No instruction touches what is paid for memory, whatever frames it enters. -/
lemma Effect.paidMemory {runner : Runner} (hr : EvolvingRunner runner) {context : Context}
    {m : Machine} {ex ex' : Executor} {i : Instruction} (h : Effect runner context m ex i ex') :
    paidMemory ex' = paidMemory ex := by
  cases h with
  | machine i => rfl
  | loaded event => exact paidMemory_emit _ _ _
  | stored event slot value => exact paidMemory_emit ex .runtime event
  | logged topics data => rfl
  | created h => exact paidMemory_create hr h
  | called htake h => exact paidMemory_call hr h
  | destroyed target =>
    rw [Proofs.paidMemory, markDestroyed_frame]
    rfl

lemma conclude_memory (task : Task) (control : Control) (m : Machine) :
    (task.conclude control m).2.memory = m.memory := by
  unfold Task.conclude
  cases control with
  | proceed =>
    by_cases hhalts : task.operation.halts = true
    · simp [hhalts]
    · by_cases hjumps : task.operation.jumps = true <;> simp [hhalts, hjumps, Machine.advance]
  | halt halt => rfl
  | exit exit => rfl

/-- Once its task is ready, a step leaves the size of the memory and what is paid for it alone. -/
theorem Performs.keepsMemory {fuel : Nat} {c : Configuration} {task : Task} {grown : Machine}
    {ready : Executor} {p : Progress} (hperforms : Performs c task grown ready)
    (h : step (run fuel) c.context c.machine c.executor = some p) :
    (Progress.machine p).memory.size = grown.memory.size ∧
      paidMemory (Progress.executor p) = paidMemory ready := by
  obtain ⟨control, done, after, event, hperform, hexecutor, hmachine⟩ := hperforms.performed h
  constructor
  · rw [hmachine, conclude_memory]
    exact (perform_layout hperform).memorySize
  · rw [hexecutor, paidMemory_emit]
    exact (perform_effect hperform).paidMemory (run_evolves fuel)

/-- The frame goes on to its next step. -/
inductive Continues (c : Configuration) : Configuration → Prop
  | intro {fuel : Nat} {m : Machine} {ex : Executor}
      (h : step (run fuel) c.context c.machine c.executor = some (.next m ex)) :
    Continues c ⟨c.context, m, ex⟩

/-- The steps of one frame. -/
abbrev SameFrame : Configuration → Configuration → Prop := Relation.ReflTransGen Continues

lemma Continues.leads {c c' : Configuration} (h : Continues c c') : Leads c c' := by
  cases h with
  | intro hstep => exact .next hstep

lemma SameFrame.reaches {c c' : Configuration} (h : SameFrame c c') : Reaches c c' :=
  Relation.ReflTransGen.mono (fun _ _ => Continues.leads) _ _ h

lemma watch_sameFrame {context : Context} {steps : Nat} {seen : List Observation} {m : Machine}
    {ex : Executor} {w : Watched} (h : watch context steps seen m ex = some w)
    (hexit : w.exit = none) : SameFrame ⟨context, m, ex⟩ ⟨context, w.machine, w.executor⟩ := by
  induction steps generalizing seen m ex with
  | zero =>
    simp only [watch, Option.some.injEq] at h
    subst h
    exact .refl
  | succ steps ih =>
    simp only [watch] at h
    split at h
    · cases h
    · next hstep => exact .head (.intro hstep) (ih h)
    · cases h
      cases hexit

lemma Continues.performs {c c' : Configuration} (h : Continues c c') :
    ∃ task grown ready, Performs c task grown ready := by
  cases h with
  | intro hstep =>
    obtain ⟨⟨_, _, _, hexits⟩, -⟩ | ⟨task, grown, ready, _, _, _, _, hperforms, -⟩ :=
      step_performs hstep
    · cases hexits
    · exact ⟨task, grown, ready, hperforms⟩

theorem Continues.paysFor {c c' : Configuration} {count : Nat} (h : Continues c c')
    (hc : PaysFor count c.machine c.executor) :
    ∃ count', count ≤ count' ∧ PaysFor count' c'.machine c'.executor := by
  obtain ⟨task, grown, ready, hperforms⟩ := h.performs
  have hready := hperforms.paysFor hc
  cases h with
  | intro hstep =>
    obtain ⟨hsize, hpaid⟩ := hperforms.keepsMemory hstep
    exact ⟨_, Nat.le_max_left _ _, ⟨hsize.trans hready.size, hpaid.trans hready.paid,
      hready.bounded⟩⟩

lemma SameFrame.paysFor {c c' : Configuration} {count : Nat} (h : SameFrame c c')
    (hc : PaysFor count c.machine c.executor) :
    ∃ count', count ≤ count' ∧ PaysFor count' c'.machine c'.executor := by
  induction h with
  | refl => exact ⟨count, Nat.le_refl _, hc⟩
  | tail _ hcontinues ih =>
    obtain ⟨mid, hle, hmid⟩ := ih
    obtain ⟨last, hle', hlast⟩ := hcontinues.paysFor hmid
    exact ⟨last, hle.trans hle', hlast⟩

/-- A frame starts at the first step of a machine, with what it is given on a new meter. -/
lemma Starts.fresh {ex : Executor} {order : Order} {child : Configuration}
    (h : Starts ex order child) :
    (∃ code input, child.machine = child.executor.machine code input) ∧
      ∃ limit, child.executor.frame.meter = .new limit := by
  obtain ⟨-, entered, henters, hprepares⟩ := h.prepared
  constructor
  · cases h with
    | call hopening =>
      obtain ⟨-, hover⟩ | ⟨-, f, last, -, hover⟩ | ⟨started, -, hready⟩ := openCall_paid henters
      · rw [hover] at hopening
        cases hopening
      · rw [hover] at hopening
        cases hopening
      · rw [hready] at hopening
        split at hopening
        · cases hopening
        · cases hopening
          exact ⟨_, _, rfl⟩
    | create hopening =>
      obtain ⟨-, hover⟩ | ⟨-, f, last, -, hover⟩ | ⟨started, -, hready⟩ := openCreation_paid henters
      · rw [hover] at hopening
        cases hopening
      · rw [hover] at hopening
        cases hopening
      · rw [hready] at hopening
        cases hopening
        exact ⟨_, _, rfl⟩
  · obtain ⟨self, outer, gasLimit, -, rfl⟩ := henters.around
    rw [hprepares.evolves.2]
    exact ⟨gasLimit, rfl⟩

lemma Starts.paysFor {ex : Executor} {order : Order} {child : Configuration}
    (h : Starts ex order child) : PaysFor 0 child.machine child.executor := by
  obtain ⟨⟨code, input, hmachine⟩, limit, hmeter⟩ := h.fresh
  refine ⟨?_, ?_, by decide⟩
  · rw [hmachine]
    rfl
  · rw [paidMemory, hmeter]
    rfl

/-- All memory is paid for at every step of every frame that an execution comes to. -/
theorem Reaches.paysFor {ex : Executor} {order : Order} {outermost c : Configuration}
    (hstarts : Starts ex order outermost) (h : Reaches outermost c) :
    ∃ count, PaysFor count c.machine c.executor := by
  induction h with
  | refl => exact ⟨0, hstarts.paysFor⟩
  | tail _ hleads ih =>
    cases hleads with
    | next hstep =>
      obtain ⟨count, hcount⟩ := ih
      obtain ⟨count', -, hcount'⟩ := (Continues.intro hstep).paysFor hcount
      exact ⟨count', hcount'⟩
    | nested horders hbelow => exact ⟨0, hbelow.paysFor⟩

lemma PaysFor.memorySize {count : Nat} {m : Machine} {ex : Executor} (h : PaysFor count m ex)
    (context : Context) : (Reading.memorySize.value context m ex).toNat = 32 * count := by
  have hcount : count < 0x100000000 := by
    by_contra hle
    have hsquare := Nat.mul_le_mul (Nat.not_lt.mp hle) (Nat.not_lt.mp hle)
    have hbounded := h.bounded
    unfold Quantity.limit at hbounded
    omega
  rw [Reading.value, h.size, BitVec.toNat_ofNat]
  omega

/-- At every step of every frame the memory is a number of words, the meter has counted exactly
their price, and `MSIZE` reads their bytes. Neither ever shrinks in the frame. A step that orders a
call or a creation adds what the instruction itself needs, whatever comes of the order. -/
theorem memory_is_exactly_paid_for {ex : Executor} {order : Order} {outermost c : Configuration}
    (hstarts : Starts ex order outermost) (hreaches : Reaches outermost c) :
    ∃ count,
      (c.machine.memory.size = 32 * count ∧
        paidMemory c.executor = some (3 * count + count * count / 512) ∧
        (Reading.memorySize.value c.context c.machine c.executor).toNat = 32 * count) ∧
      (∀ later, SameFrame c later → c.machine.memory.size ≤ later.machine.memory.size ∧
        ∃ paid, paidMemory later.executor = some paid ∧ 3 * count + count * count / 512 ≤ paid) ∧
      ∀ fuel task order ready p, Orders c task order ready →
        step (run fuel) c.context c.machine c.executor = some p →
          (Progress.machine p).memory.size = 32 * max count (neededWords task.memoryEnd) ∧
          paidMemory (Progress.executor p) =
            some (memoryPrice (max count (neededWords task.memoryEnd))) := by
  obtain ⟨count, hcount⟩ := hreaches.paysFor hstarts
  refine ⟨count, ⟨hcount.size, hcount.paid, hcount.memorySize c.context⟩, ?_, ?_⟩
  · intro later hlater
    obtain ⟨count', hle, hcount'⟩ := hlater.paysFor hcount
    refine ⟨?_, _, hcount'.paid, memoryPrice_mono hle⟩
    rw [hcount.size, hcount'.size]
    omega
  · intro fuel task order ready p horders hstep
    obtain ⟨grown, hperforms⟩ := horders.performs
    have hready := hperforms.paysFor hcount
    obtain ⟨hsize, hpaid⟩ := hperforms.keepsMemory hstep
    exact ⟨hsize.trans hready.size, hpaid.trans hready.paid⟩

/-- An account whose code stores a word at the start of its memory. -/
def storingExecutor : Executor :=
  let accounts : Std.ExtTreeMap Address Account :=
    Std.ExtTreeMap.empty.insert 0xb ⟨0, 0, ∅, #[0x36, 0x36, 0x52, 0x59]⟩
  (Executor.new (.ofAccounts accounts) .homestead .zero).reset 0xa 1000

theorem memory_is_exactly_paid_for_storingExecutor :
    ∃ outermost c, Starts storingExecutor (.call ⟨0xb, none, #[], none, false, ⟨0xb, 0xa, 0⟩⟩)
        outermost ∧
      SameFrame outermost c ∧ c.machine.memory.size = 32 ∧ paidMemory c.executor = some 3 := by
  have hthree : (match storingExecutor.openCall 0xb none #[] none false ⟨0xb, 0xa, 0⟩ with
      | .ready m started => (watch ⟨0xb, 0xa, 0⟩ 3 [] m started).map fun w =>
          (w.exit, w.machine.memory.size)
      | .over _ _ => none) = some (none, 32) := by
    decide +kernel
  cases hopening : storingExecutor.openCall 0xb none #[] none false ⟨0xb, 0xa, 0⟩ with
  | «over» outcome ex =>
    simp only [hopening] at hthree
    cases hthree
  | ready m started =>
    simp only [hopening] at hthree
    obtain ⟨w, hwatch, hw⟩ := Option.map_eq_some_iff.mp hthree
    obtain ⟨hexit, hsize⟩ := Prod.mk.injEq _ _ _ _ ▸ hw
    have hstarts : Starts storingExecutor
        (.call ⟨0xb, none, #[], none, false, ⟨0xb, 0xa, 0⟩⟩) ⟨⟨0xb, 0xa, 0⟩, m, started⟩ :=
      .call hopening
    have hsame := watch_sameFrame hwatch hexit
    obtain ⟨count, ⟨hcount, hpaid, -⟩, -⟩ := memory_is_exactly_paid_for hstarts hsame.reaches
    have hone : count = 1 := by
      simp only at hcount
      omega
    rw [hone] at hpaid
    exact ⟨_, _, hstarts, hsame, hsize, hpaid⟩

end ContractMachine.Proofs
