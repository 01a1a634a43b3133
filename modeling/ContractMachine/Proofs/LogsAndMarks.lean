import ContractMachine.Proofs.AccountIsolation
import ContractMachine.Proofs.Applications
import Mathlib.Data.List.Chain

/-!
# Logs and self-destructions

A log is left, and an account is marked, by a step of some frame, and both are taken back with that
frame if it is not committed. What a message leaves of them therefore comes from its kept steps.
Settling the message removes the marked accounts and no others, so that each message starts with no
account marked and nothing to take back.
-/

namespace ContractMachine.Proofs

namespace Configuration

/-- The instruction that the step performs, if it comes to that. -/
def instruction? (c : Configuration) : Option Instruction :=
  c.performance?.map fun (task, _) => task.operation.behaviour

/-- The log that the step leaves. It carries the address of the frame. The stack holds the offset
and the length of its data in memory, and below them its topics. -/
def log? (c : Configuration) : Option Log :=
  match c.instruction?, c.machine.stack.items with
  | some (.log topics), offset :: length :: items =>
    some ⟨c.context.address, items.take topics, c.machine.memory.read offset.toNat length.toNat⟩
  | _, _ => none

/-- Whether the step destroys the account of the frame. -/
def destroys (c : Configuration) : Bool := decide (c.instruction? = some .selfDestruct)

end Configuration

lemma pop_memory {m m' : Machine} {w : Word} (h : Machine.pop m = (.ok w, m')) :
    m'.memory = m.memory :=
  (congrArg (fun result => result.2.memory) h).symm

lemma quantity_ok {w : Word} {f : Fault} {m m' : Machine} {q : Nat}
    (h : Machine.quantity w f m = (.ok q, m')) : q = w.toNat ∧ m' = m := by
  unfold Machine.quantity Word.toQuantity? at h
  by_cases hfits : w.toNat < Quantity.limit
  · rw [if_pos hfits] at h
    cases h
    exact ⟨rfl, rfl⟩
  · rw [if_neg hfits] at h
    cases h

lemma region_ok {offset length : Word} {m m' : Machine} {data : Bytes}
    (h : Machine.region offset length m = (.ok data, m')) :
    data = m.memory.read offset.toNat length.toNat ∧ m' = m := by
  unfold Machine.region at h
  by_cases hlength : length = 0
  · rw [if_pos hlength] at h
    cases h
    rw [hlength]
    exact ⟨rfl, rfl⟩
  · rw [if_neg hlength] at h
    obtain ⟨start, m1, hstart, hrest⟩ := bind_ok h
    obtain ⟨count, m2, hcount, hread⟩ := bind_ok hrest
    obtain ⟨rfl, rfl⟩ := quantity_ok hstart
    obtain ⟨rfl, rfl⟩ := quantity_ok hcount
    cases hread
    exact ⟨rfl, rfl⟩

lemma takeItems_ok {n : Nat} {m m' : Machine} {items : List Word}
    (h : Machine.takeItems n m = (.ok items, m')) :
    items = m.stack.items.take n ∧ n ≤ m.stack.items.length := by
  induction n generalizing m m' items with
  | zero =>
    cases h
    exact ⟨rfl, Nat.zero_le _⟩
  | succ n ih =>
    obtain ⟨item, m1, hitem, h⟩ := bind_ok h
    obtain ⟨rest, m2, hrest, h⟩ := bind_ok h
    cases h
    obtain ⟨rfl, hlength⟩ := ih hrest
    rw [pop_ok hitem]
    exact ⟨rfl, Nat.succ_le_succ hlength⟩

lemma takeLog_operands {count : Nat} {m taken : Machine} {topics : List Word} {data : Bytes}
    (h : Machine.takeLog count m = (.ok (topics, data), taken)) :
    ∃ offset length items, m.stack.items = offset :: length :: items ∧
      topics = items.take count ∧ count ≤ items.length ∧
        data = m.memory.read offset.toNat length.toNat := by
  obtain ⟨offset, m1, hoffset, h⟩ := bind_ok h
  obtain ⟨length, m2, hlength, h⟩ := bind_ok h
  obtain ⟨region, m3, hregion, h⟩ := bind_ok h
  obtain ⟨items, m4, hitems, h⟩ := bind_ok h
  cases h
  obtain ⟨rfl, rfl⟩ := region_ok hregion
  obtain ⟨rfl, hcount⟩ := takeItems_ok hitems
  have hmemory : m3.memory = m.memory := (pop_memory hlength).trans (pop_memory hoffset)
  rw [hmemory]
  exact ⟨offset, length, m3.stack.items, by rw [pop_ok hoffset, pop_ok hlength], rfl, hcount, rfl⟩

/-- Memory that grows reads as before: there are zeros past its end. -/
lemma grow_read {memoryEnd : Option Nat} {m grown : Machine}
    (h : Machine.grow memoryEnd m = (.ok (), grown)) (offset size : Nat) :
    grown.memory.read offset size = m.memory.read offset size := by
  cases memoryEnd with
  | none =>
    cases h
    rfl
  | some stop =>
    obtain ⟨code, input, position, start, stop', jumps, ⟨data, limit⟩, stack⟩ := m
    simp only [Machine.grow, Machine.onMemory, Memory.resize_eq] at h
    repeat' split at h
    all_goals cases h
    · rfl
    · simp only [Memory.read, Bytes.window, Bytes.at0]
      congr 1
      funext i
      simp only [Array.getD_eq_getD_getElem?, Array.getElem?_append, Array.getElem?_replicate]
      split
      · rfl
      · rw [Array.getElem?_eq_none (by omega)]
        split <;> rfl

section Steps

variable {runner : Runner} {c : Configuration} {task : Task} {grown done : Machine}
  {ready after : Executor} {control : Control}

lemma Performs.instruction? (h : Performs c task grown ready) :
    c.instruction? = some task.operation.behaviour := by
  rw [Configuration.instruction?, performance?_iff.mpr h, Option.map_some]

lemma Performs.memory (h : Performs c task grown ready) (offset size : Nat) :
    grown.memory.read offset size = c.machine.memory.read offset size := by
  cases h with
  | intro hvetted hcharge hgrow => exact grow_read hgrow offset size

lemma Performs.destroys (h : Performs c task grown ready) :
    c.destroys = decide (task.operation.behaviour = .selfDestruct) := by
  rw [Configuration.destroys, h.instruction?]
  simp only [Option.some.injEq]

lemma Performs.log?_eq_none (h : Performs c task grown ready)
    (hi : ∀ count, task.operation.behaviour ≠ .log count) : c.log? = none := by
  unfold Configuration.log?
  rw [h.instruction?]
  split
  · next count offset length items hlog _ => exact absurd (Option.some.inj hlog) (hi count)
  · rfl

/-- A log instruction that does not fault leaves a log of as many topics as it says. -/
lemma Performs.logs (hperforms : Performs c task grown ready) {count : Nat}
    (hinstruction : task.operation.behaviour = .log count)
    (hperform : perform runner (.log count) c.context grown ready = some (control, done, after))
    (hcontrol : ∀ f, control ≠ .fault f) :
    ∃ log, c.log? = some log ∧ log.topics.length = count ∧
      after.world = ready.world.log log := by
  simp only [perform] at hperform
  obtain ⟨f, -, hfault, -⟩ | ⟨⟨topics, data⟩, taken, htake, hk⟩ := takeThen_cases hperform
  · exact absurd hfault (hcontrol f)
  · obtain ⟨offset, length, items, hstack, rfl, hcount, rfl⟩ := takeLog_operands htake
    rw [hperforms.vetted.2] at hstack
    cases hk
    refine ⟨_, ?_, List.length_take_of_le hcount, rfl⟩
    unfold Configuration.log?
    rw [hperforms.instruction?, hinstruction, hstack, hperforms.memory]

end Steps

/-! ### The logs as a part of the world -/

lemma transfer_trail {t : Transfer} {ex moved : Executor}
    (h : Executor.transfer t ex = (.ok (), moved)) : moved.world.trail = ex.world.trail := by
  obtain ⟨-, rfl⟩ := transfer_moved h
  exact (setBalance_trail _ _ _).trans (setBalance_trail _ _ _)

lemma Prepares.trail {ex entered started : Executor} {order : Order}
    (h : Prepares ex order entered started) : started.world.trail = entered.world.trail := by
  cases h with
  | @call o _ _ hdepth htransfer =>
    refine Eq.trans ?_ (ensureAccount_trail o.context.address entered)
    cases ht : o.transfer with
    | none =>
      rw [ht] at htransfer
      cases htransfer
      rfl
    | some t =>
      rw [ht] at htransfer
      exact transfer_trail htransfer
  | create hfree htransfer =>
    have hmoved := transfer_trail htransfer
    exact hmoved

lemma markDestroyed_trail (address target : Address) (ex : Executor) :
    (Executor.markDestroyed address target ex).2.world.trail = ex.world.trail := by
  unfold Executor.markDestroyed
  obtain ⟨hshort, -⟩ | ⟨-, h⟩ := transfer_cases ⟨address, target, ex.world.balance address⟩
    (ex.emit .executor (.selfDestruct address target (ex.world.balance address)))
  · simp at hshort
  · have hmoved := transfer_trail h
    rw [emit_world] at hmoved
    simp only [h]
    exact hmoved

/-- The logs of the world, to which a step adds its own. -/
def trailPart : Part (List Log) where
  value := World.trail
  own c trail := c.log?.toList ++ trail

lemma perform_unordered_trail {runner : Runner} {c : Configuration} {task : Task}
    {grown done : Machine} {ready after : Executor} {control : Control}
    (hperforms : Performs c task grown ready)
    (hperform : perform runner task.operation.behaviour c.context grown ready =
      some (control, done, after)) (hcontrol : ∀ f, control ≠ .fault f) (horder : c.order? = none) :
    after.world.trail = c.log?.toList ++ ready.world.trail := by
  have hnone {order : Order} (horders : Orders c task order ready) : False := by
    rw [order?_iff.mpr ⟨task, horders⟩] at horder
    cases horder
  by_cases hlog : ∃ count, task.operation.behaviour = .log count
  · obtain ⟨count, hinstruction⟩ := hlog
    rw [hinstruction] at hperform
    obtain ⟨log, hsome, -, hworld⟩ := hperforms.logs hinstruction hperform hcontrol
    rw [hsome, hworld]
    rfl
  · have hsilent : c.log? = none := hperforms.log?_eq_none (not_exists.mp hlog)
    rw [hsilent, Option.toList_none, List.nil_append]
    generalize hinstruction : task.operation.behaviour = i at hperform hlog
    cases perform_effect hperform with
    | machine i => rfl
    | loaded event => rw [emit_world]
    | stored event slot value =>
      show ((ready.emit .runtime event).world.ensure c.context.address).trail = _
      rw [ensure_trail, emit_world]
    | logged topics data => exact absurd ⟨_, rfl⟩ hlog
    | created hcreate htake => exact (hnone (.create hperforms hinstruction htake)).elim
    | called htake hcall => exact (hnone (.call hperforms hinstruction htake)).elim
    | destroyed target => exact markDestroyed_trail _ _ _

lemma Orders.silent {c : Configuration} {task : Task} {order : Order} {ready : Executor}
    (h : Orders c task order ready) : c.log? = none ∧ c.destroys = false := by
  cases h with
  | call hperforms hinstruction htake | create hperforms hinstruction htake =>
    refine ⟨hperforms.log?_eq_none (by simp [hinstruction]), ?_⟩
    rw [hperforms.destroys, hinstruction]
    rfl

lemma Configuration.idle {c : Configuration} (h : c.performance? = none) :
    c.log? = none ∧ c.destroys = false := by
  have hnone : c.instruction? = none := by rw [Configuration.instruction?, h, Option.map_none]
  simp [Configuration.log?, Configuration.destroys, hnone]

lemma trailPart_lawful : trailPart.Lawful where
  idle {c v} hnone := by
    show c.log?.toList ++ v = v
    rw [(Configuration.idle hnone).1]
    rfl
  unordered hperforms hperform hcontrol horder :=
    perform_unordered_trail hperforms hperform hcontrol horder
  entered {c task order ready entered} horders henters := by
    show entered.world.trail = c.log?.toList ++ ready.world.trail
    rw [henters.world, horders.silent.1]
    cases order with
    | call o => rfl
    | create o => exact setNonce_trail _ _ _
  refused {c task order ready after} horders hrefused := by
    show c.log?.toList ++ _ = _
    rw [horders.silent.1]
    rfl
  prepared hprepares := hprepares.trail
  coded w a code := ensure_trail w a

lemma Chronicle.trail {u v : List Log} {steps : List Configuration}
    (h : Chronicle trailPart u steps v) :
    v.reverse = u.reverse ++ steps.filterMap Configuration.log? := by
  induction h with
  | nil => rw [List.filterMap_nil, List.append_nil]
  | @cons c rest v h ih =>
    simp only [trailPart] at ih ⊢
    rw [ih]
    cases hlog : c.log? with
    | none => simp [hlog]
    | some log => simp [hlog]

/-! ### The marks as a part of the world -/

/-- Whether an account is marked, as a step marks that of its frame. -/
def markPart (x : Address) : Part Bool where
  value w := w.isMarked x
  own c marked := (c.destroys && c.context.address == x) || marked

lemma isMarked_insert (w : World) (a x : Address) :
    (w.marked.insert a).contains x = (a == x || w.isMarked x) := by
  rw [Std.ExtTreeSet.contains_insert, World.isMarked, Bool.eq_iff_iff]
  simp only [Bool.or_eq_true, beq_iff_eq, Std.compare_eq_iff_eq]

lemma markPart_lawful (x : Address) : (markPart x).Lawful where
  idle {c v} hnone := by
    show (c.destroys && c.context.address == x || v) = v
    rw [(Configuration.idle hnone).2]
    rfl
  unordered {runner c task grown ready control done after} hperforms hperform hcontrol horder := by
    show after.world.isMarked x = (c.destroys && c.context.address == x || ready.world.isMarked x)
    obtain ⟨-, hmarked⟩ := perform_unordered hperforms hperform hcontrol horder
    rw [World.isMarked, hmarked, hperforms.destroys]
    by_cases hdestroys : task.operation.behaviour = .selfDestruct
    · rw [if_pos hdestroys, isMarked_insert, decide_eq_true hdestroys, Bool.true_and]
    · rw [if_neg hdestroys, decide_eq_false hdestroys, Bool.false_and, Bool.false_or]
      rfl
  entered {c task order ready entered} horders henters := by
    show entered.world.isMarked x = (c.destroys && c.context.address == x || ready.world.isMarked x)
    rw [henters.world, horders.silent.2, Bool.false_and, Bool.false_or]
    cases order with
    | call o => rfl
    | create o => exact isMarked_congr (setNonce_marked _ _ _) x
  refused {c task order ready after} horders hrefused := by
    show (c.destroys && c.context.address == x || _) = _
    rw [horders.silent.2]
    rfl
  prepared hprepares := isMarked_congr hprepares.marked x
  coded w a code := isMarked_congr (ensure_marked w a) x

lemma Chronicle.marks {x : Address} {u v : Bool} {steps : List Configuration}
    (h : Chronicle (markPart x) u steps v) :
    v = true ↔ u = true ∨ ∃ c ∈ steps, c.destroys = true ∧ c.context.address = x := by
  induction h with
  | nil => simp
  | @cons c rest v h ih =>
    rw [ih]
    simp only [markPart, Bool.or_eq_true, Bool.and_eq_true, beq_iff_eq, List.exists_mem_cons_iff]
    exact or_assoc.trans or_left_comm

/-- Every account of `w` is still there in `w'`. -/
def KeepsAccounts (w w' : World) : Prop := ∀ x, w.exists? x = true → w'.exists? x = true

namespace KeepsAccounts

variable {w mid w' : World}

theorem refl (w : World) : KeepsAccounts w w := fun _ h => h

theorem trans (h : KeepsAccounts w mid) (h' : KeepsAccounts mid w') : KeepsAccounts w w' :=
  fun x hx => h' x (h x hx)

theorem of_replaced {a : Address} {account : Account}
    (h : ∀ b, w'.account? b = if a = b then some account else w.account? b) :
    KeepsAccounts w w' := by
  intro x hx
  rw [exists?_eq_isSome, h]
  by_cases hax : a = x
  · rw [if_pos hax]
    rfl
  · rwa [if_neg hax, ← exists?_eq_isSome]

end KeepsAccounts

lemma WorldChange.keepsAccounts {self : Address} {w w' : World} (h : WorldChange self w w') :
    KeepsAccounts w w' := by
  have hmoved (w : World) (a b : Address) (m n : Word) :
      KeepsAccounts w ((w.setBalance a m).setBalance b n) := by
    have hfirst : KeepsAccounts w (w.setBalance a m) :=
      .of_replaced fun x => setBalance_account? w a x m
    exact hfirst.trans (.of_replaced fun x => setBalance_account? _ b x n)
  cases h with
  | store slot value => exact .of_replaced fun x => setStorage_account? w self x slot value
  | log topics data => exact .refl w
  | raiseNonce hmax => exact .of_replaced fun x => setNonce_account? w self x _
  | materialize habsent => exact .of_replaced (createAccount_account? w self)
  | found hnonce hcode => exact .of_replaced (createAccount_account? w self)
  | move t hfunds => exact hmoved w _ _ _ _
  | destroy target =>
    have hbalances : KeepsAccounts w
        ((w.subBalance self (w.balance self)).addBalance target (w.balance self)) :=
      hmoved w self target _ _
    refine hbalances.trans fun x hx => ?_
    rw [exists?_eq_isSome] at hx ⊢
    rw [selfDestruct_account?]
    by_cases hself : self = x
    · subst hself
      rwa [if_pos rfl, Option.isSome_map]
    · rwa [if_neg hself]
  | deposit created code => exact .of_replaced fun x => setCode_account? w created x code

/-- Whatever a frame does, and whatever is taken back in it, no account of before is lost. -/
theorem Evolves.keepsAccounts {self : Address} {ex ex' : Executor} (h : Evolves self ex ex') :
    KeepsAccounts ex.world ex'.world := by
  induction h with
  | refl self ex => exact .refl _
  | trans _ _ ih ih' => exact ih.trans ih'
  | record self ex e => exact .refl _
  | emit self ex listener event =>
    rw [emit_world]
    exact .refl _
  | change h => exact h.keepsAccounts
  | nested closing h ih =>
    rw [close_world closing h.keeps, closedWorld]
    by_cases hclosing : closing = .commit
    · rw [if_pos hclosing]
      exact ih
    · rw [if_neg hclosing]
      exact .refl _

lemma carryOut_keepsAccounts {runner : Runner} (hr : EvolvingRunner runner) {ex after : Executor}
    {order : Order} (h : order.carryOut runner ex = some after) :
    KeepsAccounts ex.world after.world := by
  cases order with
  | call o =>
    obtain ⟨ended, hcall, rfl⟩ := Option.map_eq_some_iff.mp h
    exact (call_evolves hr o.context.address hcall).keepsAccounts
  | create o =>
    obtain ⟨ended, hcreate, rfl⟩ := Option.map_eq_some_iff.mp h
    exact (create_evolves hr hcreate).keepsAccounts

lemma messageReady_keepsAccounts (ex : Executor) (m : Message) :
    KeepsAccounts ex.world (messageReady (ex.ensureAccount m.sender) m).world := by
  refine (ensureAccount_evolves m.sender ex).keepsAccounts.trans ?_
  rw [messageReady, emit_world, messageStart]
  cases m.recipient with
  | none => exact .refl _
  | some recipient =>
    exact (ensureAccount_evolves recipient _).keepsAccounts.trans
      (.of_replaced fun x => setNonce_account? _ m.sender x _)

/-! ### Kept steps do what their opcodes say -/

/-- A step that finds an opcode and does not fault performs the task of that opcode. -/
lemma performs_of_opcode {runner : Runner} {c : Configuration} {p : Progress} {op : Opcode}
    (h : step runner c.context c.machine c.executor = some p)
    (hp : ∀ f m ex, p ≠ .exit (.fault f) m ex) (hop : c.machine.opcode? = some op) :
    ∃ task grown ready control done after, Performs c task grown ready ∧ task.op = op ∧
      perform runner task.operation.behaviour c.context grown ready =
        some (control, done, after) ∧ ∀ f, control ≠ .fault f := by
  obtain ⟨hnone, -⟩ | ⟨task, grown, ready, control, done, after, event, hperforms, hperform,
    hcontrol, -⟩ := step_faultless h hp
  · cases hvet : c.executor.vet op (c.executor.instructions.get op) c.machine.stack with
    | error f =>
      have hlooked : c.executor.admit c.machine = .error (.fault f) := by
        simp only [hop, hvet, Executor.admit]
      simp only [step, hlooked, Option.some.injEq] at h
      exact absurd h.symm (hp f _ _)
    | ok memoryEnd =>
      have hlooked : c.executor.admit c.machine =
          .ok ⟨op, c.executor.instructions.get op, memoryEnd⟩ := by
        simp only [hop, hvet, Executor.admit]
      obtain ⟨task, grown, ready, hperforms⟩ : ∃ task grown ready, Performs c task grown ready := by
        cases step_stepped h with
        | refused hvetted =>
          rw [hlooked] at hvetted
          cases hvetted
        | unpaid hvetted hcharge => exact absurd rfl (hp _ _ _)
        | tooLarge hvetted hcharge hgrow => exact absurd rfl (hp _ _ _)
        | goesOn hvetted hcharge hgrow | ends hvetted hcharge hgrow =>
          exact ⟨_, _, _, .intro hvetted hcharge hgrow⟩
      rw [performance?_iff.mpr hperforms] at hnone
      cases hnone
  · refine ⟨task, grown, ready, control, done, after, hperforms, ?_, hperform, hcontrol⟩
    have hopcode := (task_of_admitted hperforms.vetted.1).1
    rw [hop] at hopcode
    exact (Option.some.inj hopcode).symm

/-- The instruction that the opcode at the position names. -/
def Configuration.named? (c : Configuration) : Option Instruction :=
  c.machine.opcode?.bind Opcode.instruction?

/-- The step ends, and not in a fault. -/
def Faultless (c : Configuration) : Prop :=
  ∃ fuel p, step (run fuel) c.context c.machine c.executor = some p ∧
    ∀ f m ex, p ≠ .exit (.fault f) m ex

lemma Faultless.instruction? {c : Configuration} (hs : IsStandard c.executor.instructions)
    (h : Faultless c) : c.instruction? = c.named? := by
  obtain ⟨fuel, p, hstep, hp⟩ := h
  cases hop : c.machine.opcode? with
  | none =>
    have hnone : c.performance? = none := by
      simp only [hop, Configuration.performance?, Executor.admit]
    rw [Configuration.instruction?, Configuration.named?, hnone, hop]
    rfl
  | some op =>
    obtain ⟨task, grown, ready, control, done, after, hperforms, rfl, -⟩ :=
      performs_of_opcode hstep hp hop
    rw [hperforms.instruction?, Configuration.named?, hop, Option.bind_some]
    exact (task_of_standard hs hperforms.vetted.1).2.1.symm

lemma Faultless.log? {c : Configuration} {count : Nat} (h : Faultless c)
    (hlog : c.instruction? = some (.log count)) :
    ∃ log, c.log? = some log ∧ log.topics.length = count := by
  obtain ⟨fuel, p, hstep, hp⟩ := h
  obtain ⟨hnone, -⟩ | ⟨task, grown, ready, control, done, after, event, hperforms, hperform,
    hcontrol, -⟩ := step_faultless hstep hp
  · rw [Configuration.instruction?, hnone] at hlog
    cases hlog
  · have hinstruction : task.operation.behaviour = .log count := by
      rw [hperforms.instruction?] at hlog
      exact Option.some.inj hlog
    rw [hinstruction] at hperform
    obtain ⟨log, hsome, hlength, -⟩ := hperforms.logs hinstruction hperform hcontrol
    exact ⟨log, hsome, hlength⟩

lemma committed?_succeeds {runner : Runner} {ex : Executor} {order : Order} {child : Configuration}
    (h : order.committed? runner ex = some child) :
    ∃ halt m inner, runner child.context child.machine child.executor =
      some (.succeed halt, m, inner) := by
  obtain ⟨-, hfate⟩ := Option.filter_eq_some_iff.mp h
  cases hrun : runner child.context child.machine child.executor with
  | none => simp [hrun] at hfate
  | some result =>
    obtain ⟨exit, m, inner⟩ := result
    simp only [hrun] at hfate
    obtain ⟨halt, rfl⟩ := commits_succeed hfate
    exact ⟨halt, m, inner, rfl⟩

/-- The kept steps of a run that ends well all end without a fault. -/
lemma keptSteps_faultless {fuel : Nat} {c d : Configuration} {halt : Halt} {m : Machine}
    {ex : Executor} (h : run fuel c.context c.machine c.executor = some (.succeed halt, m, ex))
    (hd : d ∈ keptSteps fuel c) : Faultless d := by
  induction fuel generalizing c halt m ex with
  | zero => cases h
  | succ fuel ih =>
    obtain rfl | hlater := List.mem_cons.mp hd
    · obtain hstep | ⟨next, after, hstep, -⟩ := run_succ h
      · exact ⟨fuel, _, hstep, by simp⟩
      · exact ⟨fuel, _, hstep, by simp⟩
    · obtain hbelow | hnext := List.mem_append.mp hlater
      · cases hcommitted : c.committed? (run fuel) with
        | none =>
          rw [hcommitted] at hbelow
          cases hbelow
        | some child =>
          rw [hcommitted] at hbelow
          obtain ⟨⟨order, ready⟩, -, hchild⟩ := Option.bind_eq_some_iff.mp hcommitted
          obtain ⟨halt, m, inner, hrun⟩ := committed?_succeeds hchild
          exact ih hrun hbelow
      · obtain hstep | ⟨next, after, hstep, hrest⟩ := run_succ h
        · rw [hstep] at hnext
          cases hnext
        · rw [hstep] at hnext
          exact ih (c := ⟨c.context, next, after⟩) hrest hnext

/-- The kept steps of an order end without a fault, in frames that the order comes to. -/
lemma mem_keptSteps {allowance : Executor → Nat} {ex : Executor} {order : Order}
    {c : Configuration} (h : c ∈ order.keptSteps allowance ex) :
    ∃ child, Starts ex order child ∧ Faultless c ∧ Reaches child c := by
  unfold Order.keptSteps at h
  cases hcommitted : order.committed? (runs allowance) ex with
  | none =>
    rw [hcommitted] at h
    cases h
  | some child =>
    rw [hcommitted] at h
    obtain ⟨halt, m, inner, hrun⟩ := committed?_succeeds hcommitted
    exact ⟨child, start?_iff.mp (Option.filter_eq_some_iff.mp hcommitted).1,
      keptSteps_faultless hrun h, reaches_of_mem_steps ((keptSteps_sublist _ _).subset h)⟩

/-- A world with nothing pending: no change to take back, and no account to remove. -/
def AtRest (w : World) : Prop := w.journal = .empty ∧ w.marked = ∅

namespace Application

variable {a : Application} {w : World} {x : Address}

lemma kept_faultless {c : Configuration} (h : c ∈ a.kept) :
    Faultless c ∧ c.executor.instructions = a.executor.instructions := by
  obtain ⟨child, hstarts, hfaultless, hreaches⟩ := mem_keptSteps h
  have hready : a.ready.instructions = a.executor.instructions :=
    (messageReady_surroundings a.executor a.message).1
  refine ⟨hfaultless, ?_⟩
  exact hreaches.invariant (P := fun ex => ex.instructions = a.executor.instructions)
    (fun hevolves hsame => hevolves.keeps.instructions.trans hsame) (fun _ hsame => hsame)
    (hstarts.surroundings.1.trans hready)

lemma Ends.keepsAccounts (h : a.Ends w) : KeepsAccounts a.before w := by
  obtain ⟨-, outcome, ended, hexecuted, rfl⟩ := h
  obtain ⟨last, carried, hcarried, rfl⟩ := executeMessage_order hexecuted
  rw [emit_world]
  exact (messageReady_keepsAccounts a.executor a.message).trans
    (carryOut_keepsAccounts (runs_evolving _) hcarried)

/-- Before its frame is entered, a message leaves no log and marks nothing. -/
lemma entry_effects (a : Application) : (a.order.entryWorld a.ready).trail = a.before.trail ∧
    (a.order.entryWorld a.ready).marked = a.before.marked := by
  rw [order, ready, messageOrder_entryWorld]
  exact ⟨(setNonce_trail _ _ _).trans (accountsReady_trail _ _),
    (setNonce_marked _ _ _).trans (accountsReady_marked _ _)⟩

lemma Ends.logs (h : a.Ends w) :
    a.after.logs = a.before.logs ++ a.kept.filterMap Configuration.log? := by
  have htrail := (h.chronicle trailPart_lawful).trail
  have hentry : trailPart.value (a.order.entryWorld a.ready) = a.before.trail := a.entry_effects.1
  rw [hentry] at htrail
  rw [h.after]
  exact htrail

lemma Ends.isMarked (h : a.Ends w) (hmarked : a.before.marked = ∅) (x : Address) :
    w.isMarked x = true ↔ ∃ c ∈ a.kept, c.destroys = true ∧ c.context.address = x := by
  have hentry : (a.order.entryWorld a.ready).isMarked x = false := by
    rw [World.isMarked, a.entry_effects.2, hmarked]
    exact Std.ExtTreeSet.contains_empty
  have hmarks : w.isMarked x = true ↔ (a.order.entryWorld a.ready).isMarked x = true ∨
      ∃ c ∈ a.kept, c.destroys = true ∧ c.context.address = x :=
    (h.chronicle (markPart_lawful x)).marks
  simpa only [hentry, Bool.false_eq_true, false_or] using hmarks

lemma Ends.after_exists? (h : a.Ends w) (x : Address) :
    a.after.exists? x = (w.exists? x && !w.isMarked x) := by
  rw [h.after, exists?_eq_isSome, settle_account?, exists?_eq_isSome]
  by_cases hmarked : w.isMarked x = true
  · simp [hmarked]
  · simp [hmarked]

lemma atRest_after (h : AtRest a.before) : AtRest a.after := by
  by_cases haccepted : a.Accepted
  · obtain ⟨w, hends⟩ := haccepted.ends
    rw [hends.after]
    exact ⟨rfl, rfl⟩
  · rwa [after_of_rejected haccepted]

lemma atRest_before {applications : List Application} (h : applications.IsChain Follows)
    (hfirst : ∀ a ∈ applications.head?, AtRest a.before) (ha : a ∈ applications) :
    AtRest a.before := by
  induction applications with
  | nil => cases ha
  | cons first rest ih =>
    have hrest : AtRest first.before := hfirst first rfl
    obtain rfl | hlater := List.mem_cons.mp ha
    · exact hrest
    · obtain ⟨hfollows, hlinks⟩ := List.isChain_cons.mp h
      refine ih hlinks (fun next hnext => ?_) hlater
      have hbefore : next.before = first.after := hfollows next hnext
      rw [hbefore]
      exact atRest_after hrest

end Application

/-- Along a sequence of messages that starts from given accounts, every message leaves no account
marked and nothing to take back, and a rejected one changes nothing. An accepted one appends the
logs of its kept steps, in the order of these steps. Of the accounts that are there in the end it
removes those that are destroyed in kept steps, and no others, so that every other account of
before is still there. Under a standard set the kept steps are those of the opcodes found, and each
log has as many topics as its opcode says. Under metered rules every message is applied. -/
theorem effects_follow_commits (accounts : Std.ExtTreeMap Address Account) :
    (∀ applications : List Application, applications.IsChain Application.Follows →
      (∀ a ∈ applications.head?, a.before = .ofAccounts accounts) → ∀ a ∈ applications,
        (a.after.journal = .empty ∧ a.after.marked = ∅) ∧
        (¬a.Accepted → a.after = a.before) ∧
        (a.Accepted → a.after.logs = a.before.logs ++ a.kept.filterMap Configuration.log? ∧
          ∃ w, a.Ends w ∧ ∀ x, w.exists? x = true → (a.after.exists? x = false ↔
            ∃ c ∈ a.kept, c.destroys = true ∧ c.context.address = x)) ∧
        (∀ x, a.before.exists? x = true →
          (∀ c ∈ a.kept, c.destroys = true → c.context.address ≠ x) → a.after.exists? x = true) ∧
        (IsStandard a.executor.instructions → ∀ c ∈ a.kept, c.instruction? = c.named? ∧
          ∀ count, c.named? = some (.log count) →
            ∃ log, c.log? = some log ∧ log.topics.length = count)) ∧
    ∀ (ex : Executor) (m : Message) (pool : GasPool), IsStandard ex.instructions →
      Metered ex.rules → ex.rules.maxRefundQuotient ≠ 0 →
        ∃ a : Application, a.executor = ex ∧ a.message = m ∧ a.pool = pool := by
  refine ⟨?_, ?_⟩
  · intro applications hchain hfirst a ha
    have hbefore : AtRest a.before := Application.atRest_before hchain (fun first hhead => by
      rw [hfirst first hhead]
      exact ⟨rfl, rfl⟩) ha
    refine ⟨Application.atRest_after hbefore, Application.after_of_rejected, ?_, ?_, ?_⟩
    · intro haccepted
      obtain ⟨w, hends⟩ := haccepted.ends
      refine ⟨hends.logs, w, hends, fun x hpresent => ?_⟩
      rw [hends.after_exists?, hpresent, Bool.true_and, Bool.not_eq_false']
      exact hends.isMarked hbefore.2 x
    · intro x hpresent hspared
      by_cases haccepted : a.Accepted
      · obtain ⟨w, hends⟩ := haccepted.ends
        have hunmarked : w.isMarked x = false := by
          rw [← Bool.not_eq_true, hends.isMarked hbefore.2]
          rintro ⟨c, hc, hdestroys, haddress⟩
          exact hspared c hc hdestroys haddress
        rw [hends.after_exists?, hends.keepsAccounts x hpresent, hunmarked]
        rfl
      · rwa [Application.after_of_rejected haccepted]
    · intro hs c hc
      obtain ⟨hfaultless, hinstructions⟩ := Application.kept_faultless hc
      have hnamed := hfaultless.instruction? (hinstructions ▸ hs)
      exact ⟨hnamed, fun count hlog => hfaultless.log? (hnamed.trans hlog)⟩
  · intro ex m pool hs hm hquotient
    obtain ⟨applied, happlied⟩ := applyMessage_ends ⟨hs, hm⟩ hquotient m pool
    exact ⟨⟨ex, m, pool, applied, happlied⟩, rfl, rfl, rfl⟩

/-- An account that logs a word, calls one that leaves a log and fails, and calls one that leaves a
log and destroys itself. -/
def loggingExecutor : Executor :=
  let logging : Bytes :=
    #[0x60, 42, 0x60, 0, 0x52, 0x60, 7, 0x60, 32, 0x60, 0, 0xa1,
      0x60, 0, 0x60, 0, 0x60, 0, 0x60, 0, 0x60, 0, 0x60, 0xc, 0x61, 0xff, 0xff, 0xf1,
      0x60, 0, 0x60, 0, 0x60, 0, 0x60, 0, 0x60, 0, 0x60, 0xd, 0x61, 0xff, 0xff, 0xf1]
  let accounts : Std.ExtTreeMap Address Account :=
    ((Std.ExtTreeMap.empty.insert 0xb ⟨0, 0, ∅, logging⟩).insert 0xc
      ⟨0, 0, ∅, #[0x60, 0, 0x60, 0, 0xa0, 0xfe]⟩).insert 0xd
        ⟨0, 0, ∅, #[0x60, 0, 0x60, 0, 0xa0, 0x30, 0xff]⟩
  .new (.ofAccounts accounts) .homestead .zero

def loggingMessage : Message := ⟨0xa, some 0xb, 0, 0, true, #[], 300000⟩

def loggingSteps : List Configuration :=
  (messageOrder loggingMessage).keptSteps Executor.stepAllowance
    (messageReady (loggingExecutor.ensureAccount 0xa) loggingMessage)

/-- The log of the frame that fails is gone, and only the account that destroys itself is removed.
-/
theorem effects_follow_commits_loggingExecutor :
    ∃ a : Application, a.executor = loggingExecutor ∧ a.message = loggingMessage ∧
      a.after.logs = [⟨0xb, [7], (Array.replicate 31 0).push 42⟩, ⟨0xd, [], #[]⟩] ∧
      a.after.exists? 0xb = true ∧ a.after.exists? 0xc = true ∧ a.after.exists? 0xd = false := by
  have happlied : (loggingExecutor.applyMessage loggingMessage (.ofNat 300000)).map
      (fun applied => applied.result.toOption.isSome) = some true := by decide +kernel
  obtain ⟨applied, happlied, hok⟩ := Option.map_eq_some_iff.mp happlied
  have hlogs : loggingSteps.filterMap Configuration.log? =
      [⟨0xb, [7], (Array.replicate 31 0).push 42⟩, ⟨0xd, [], #[]⟩] := by decide +kernel
  have hdestroyed : (loggingSteps.filter Configuration.destroys).map (fun c => c.context.address) =
      [0xd] := by decide +kernel
  have hpresent : loggingExecutor.world.exists? 0xb = true ∧
      loggingExecutor.world.exists? 0xc = true ∧
        loggingExecutor.world.exists? 0xd = true := by decide +kernel
  let a : Application := ⟨loggingExecutor, loggingMessage, .ofNat 300000, applied, happlied⟩
  have hkeptSteps : a.kept = loggingSteps := rfl
  have haccepted : a.Accepted := by
    unfold Application.Accepted
    cases hresult : applied.result with
    | ok receipt => exact ⟨receipt, rfl⟩
    | error rejection =>
      rw [hresult] at hok
      cases hok
  have hfirst : ∀ first ∈ [a].head?, first.before = .ofAccounts loggingExecutor.world.accounts := by
    rintro first ⟨⟩
    rfl
  obtain ⟨-, -, haccepts, hspares, -⟩ := (effects_follow_commits
    loggingExecutor.world.accounts).1 [a] (List.isChain_singleton a) hfirst a List.mem_cons_self
  obtain ⟨hlogged, w, hends, hremoves⟩ := haccepts haccepted
  have hspared {x : Address} (hx : x ≠ 0xd) (c : Configuration) (hc : c ∈ a.kept)
      (hdestroys : c.destroys = true) : c.context.address ≠ x := by
    have hmem := List.mem_map_of_mem (f := fun c => c.context.address)
      (List.mem_filter.mpr ⟨hc, hdestroys⟩)
    rw [hkeptSteps, hdestroyed, List.mem_singleton] at hmem
    rw [hmem]
    exact hx.symm
  refine ⟨a, rfl, rfl, ?_, hspares 0xb hpresent.1 (hspared (by decide)),
    hspares 0xc hpresent.2.1 (hspared (by decide)), ?_⟩
  · rw [hlogged, hkeptSteps, hlogs]
    rfl
  · have hmem : (0xd : Address) ∈ (a.kept.filter Configuration.destroys).map
        (fun c => c.context.address) := by
      rw [hkeptSteps, hdestroyed]
      exact List.mem_singleton_self _
    obtain ⟨c, hc, haddress⟩ := List.mem_map.mp hmem
    obtain ⟨hkept, hdestroys⟩ := List.mem_filter.mp hc
    have hexists : w.exists? 0xd = true := hends.keepsAccounts 0xd hpresent.2.2
    exact (hremoves 0xd hexists).mpr ⟨c, hkept, hdestroys, haddress⟩

end ContractMachine.Proofs
