import ContractMachine.Proofs.ValueConservation
import ContractMachine.StateTest

/-!
# Storage without zeros

A slot that holds zero is an empty slot. No operation on a world puts a zero into a storage, and the
journal has none to give back, so that two storages are the same map exactly if they read the same
at every slot. What a message makes of a world is a sequence of such operations. A state test
therefore compares what storages hold when it compares the maps.
-/

namespace ContractMachine.Proofs

def HoldsNoZero (storage : Storage) : Prop := ∀ slot : Word, storage[slot]? ≠ some 0

section Storages

variable {storage other : Storage}

lemma holdsNoZero_empty : HoldsNoZero ∅ := by
  intro slot
  simp

lemma HoldsNoZero.insert (h : HoldsNoZero storage) (slot : Word) {value : Word}
    (hvalue : value ≠ 0) : HoldsNoZero (storage.insert slot value) := by
  intro k
  rw [Std.ExtTreeMap.getElem?_insert]
  split
  · exact fun heq => hvalue (Option.some.inj heq)
  · exact h k

lemma HoldsNoZero.erase (h : HoldsNoZero storage) (slot : Word) :
    HoldsNoZero (storage.erase slot) := by
  intro k
  rw [Std.ExtTreeMap.getElem?_erase]
  split
  · exact nofun
  · exact h k

/-- A slot is in the map if it does not read as zero. -/
lemma HoldsNoZero.getElem? (h : HoldsNoZero storage) (slot : Word) :
    storage[slot]? = if storage.getD slot 0 = 0 then none else some (storage.getD slot 0) := by
  rw [Std.ExtTreeMap.getD_eq_getD_getElem?]
  cases hslot : storage[slot]? with
  | none => rfl
  | some value =>
    have hvalue : value ≠ 0 := fun hzero => h slot (hzero ▸ hslot)
    rw [Option.getD_some, if_neg hvalue]

lemma HoldsNoZero.eq_iff (h : HoldsNoZero storage) (hother : HoldsNoZero other) :
    storage = other ↔ ∀ slot, storage.getD slot 0 = other.getD slot 0 := by
  constructor
  · intro heq slot
    rw [heq]
  · intro hreads
    apply Std.ExtTreeMap.ext_getElem?
    intro slot
    rw [h.getElem?, hother.getElem?, hreads]

lemma holdsNoZero_nonzeros (storage : Storage) :
    HoldsNoZero (storage.filter fun _ value => value != 0) := by
  intro slot
  rw [Std.ExtTreeMap.getElem?_filter', ne_eq, Option.filter_eq_some_iff]
  exact fun hkept => by simp at hkept

lemma getD_nonzeros (storage : Storage) (slot : Word) :
    (storage.filter fun _ value => value != 0).getD slot 0 = storage.getD slot 0 := by
  rw [Std.ExtTreeMap.getD_eq_getD_getElem?, Std.ExtTreeMap.getElem?_filter',
    Std.ExtTreeMap.getD_eq_getD_getElem?]
  cases storage[slot]? with
  | none => rfl
  | some value =>
    rw [Option.filter_some]
    by_cases hzero : value = 0
    · simp [hzero]
    · rw [if_pos (bne_iff_ne.mpr hzero)]

end Storages

lemma store_holdsNoZero {account : Account} (h : HoldsNoZero account.storage) (slot value : Word) :
    HoldsNoZero (account.store slot value).storage := by
  unfold Account.store
  by_cases hvalue : value = 0
  · rw [if_pos hvalue]
    exact h.erase slot
  · rw [if_neg hvalue]
    exact h.insert slot hvalue

/-- Taking the change back puts no zero into a storage. -/
def RestoresNoZero : Change → Prop
  | .account _ (some previous) => HoldsNoZero previous.storage
  | .storage _ _ (some previous) => previous ≠ 0
  | _ => True

def StoresNoZero (w : World) : Prop :=
  ∀ a account, w.account? a = some account → HoldsNoZero account.storage

structure Sparse (w : World) : Prop where
  accounts : StoresNoZero w
  journal : ∀ c ∈ w.journal.changes, RestoresNoZero c

section Worlds

variable {w v : World}

lemma StoresNoZero.view (h : StoresNoZero w) (a : Address) : HoldsNoZero (w.view a).storage := by
  rw [view_eq_getD]
  cases ha : w.account? a with
  | none => exact holdsNoZero_empty
  | some account => exact h a account ha

lemma StoresNoZero.insert (h : StoresNoZero w) (a : Address) {account : Account}
    (haccount : HoldsNoZero account.storage) :
    StoresNoZero { w with accounts := w.accounts.insert a account } := by
  intro b got hgot
  rw [insert_account?] at hgot
  split at hgot
  · cases hgot
    exact haccount
  · exact h b got hgot

lemma StoresNoZero.erase (h : StoresNoZero w) (a : Address) :
    StoresNoZero { w with accounts := w.accounts.erase a } := by
  intro b got hgot
  simp only [World.account?, Std.ExtTreeMap.getElem?_erase] at hgot
  split at hgot
  · cases hgot
  · exact h b got hgot

lemma StoresNoZero.adjust (h : StoresNoZero w) (a : Address) {f : Account → Account}
    (hf : ∀ account, HoldsNoZero account.storage → HoldsNoZero (f account).storage) :
    StoresNoZero (w.adjust a f) := by
  intro b got hgot
  rw [adjust_account?] at hgot
  split at hgot
  · obtain ⟨account, haccount, rfl⟩ := Option.map_eq_some_iff.mp hgot
    exact hf account (h a account haccount)
  · exact h b got hgot

lemma StoresNoZero.undo (h : StoresNoZero w) {c : Change} (hc : RestoresNoZero c) :
    StoresNoZero (w.undo c) := by
  cases c with
  | account a previous =>
    cases previous with
    | none => exact h.erase a
    | some account => exact h.insert a hc
  | nonce a previous | balance a previous | code a previous => exact h.adjust a fun _ => id
  | storage a slot previous =>
    apply h.adjust a
    intro account haccount
    cases previous with
    | none => exact haccount.erase slot
    | some value => exact haccount.insert slot hc
  | log => exact h
  | selfDestruct a wasMarked previous => exact StoresNoZero.adjust h a fun _ => id

lemma StoresNoZero.rewind (h : StoresNoZero w) {changes : List Change}
    (hchanges : ∀ c ∈ changes, RestoresNoZero c) : StoresNoZero (rewind w changes) := by
  induction changes generalizing w with
  | nil => exact h
  | cons c rest ih =>
    have hfirst := h.undo (hchanges c List.mem_cons_self)
    exact ih hfirst fun d hd => hchanges d (List.mem_cons_of_mem c hd)

lemma Sparse.note (h : Sparse w) (haccounts : StoresNoZero v) (hjournal : v.journal = w.journal)
    {c : Change} (hc : RestoresNoZero c) : Sparse (v.note c) := by
  refine ⟨haccounts, ?_⟩
  intro d hd
  have hmem : d = c ∨ d ∈ w.journal.changes := by
    simpa [World.note, Journal.push, hjournal] using hd
  obtain rfl | hd := hmem
  · exact hc
  · exact h.journal d hd

lemma Sparse.ensure (h : Sparse w) (a : Address) : Sparse (w.ensure a) := by
  unfold World.ensure
  split
  · exact h
  · exact h.note (h.accounts.insert a holdsNoZero_empty) rfl trivial

/-- A change of one account that has a storage without zeros, noted with what restores none. -/
lemma Sparse.adjust_note (h : Sparse w) (a : Address) {f : Account → Account} {c : Change}
    (hf : ∀ account, HoldsNoZero account.storage → HoldsNoZero (f account).storage)
    (hc : RestoresNoZero c) : Sparse ((w.adjust a f).note c) :=
  h.note (h.accounts.adjust a hf) rfl hc

lemma Sparse.createAccount (h : Sparse w) (a : Address) : Sparse (w.createAccount a) := by
  unfold World.createAccount
  cases hprevious : w.account? a with
  | none => exact h.note (h.accounts.insert a holdsNoZero_empty) rfl trivial
  | some old =>
    exact h.note (h.accounts.insert a holdsNoZero_empty) rfl (h.accounts a old hprevious)

lemma Sparse.setStorage (h : Sparse w) (a : Address) (slot value : Word) :
    Sparse (w.setStorage a slot value) := by
  have hensured := h.ensure a
  apply hensured.adjust_note a fun account haccount => store_holdsNoZero haccount slot value
  cases hprevious : ((w.ensure a).view a).storage[slot]? with
  | none => trivial
  | some previous =>
    intro hzero
    exact hensured.accounts.view a slot (hzero ▸ hprevious)

lemma Sparse.log (h : Sparse w) (entry : Log) : Sparse (w.log entry) := by
  unfold World.log
  have haccounts : StoresNoZero { w with trail := entry :: w.trail } := h.accounts
  apply h.note haccounts rfl
  trivial

lemma Sparse.selfDestruct (h : Sparse w) (a : Address) : Sparse (w.selfDestruct a) := by
  unfold World.selfDestruct
  have hmarked : StoresNoZero { w with marked := w.marked.insert a } := h.accounts
  have hcleared := hmarked.adjust a (f := fun account => { account with balance := 0 }) fun _ => id
  apply h.note hcleared rfl
  trivial

lemma Sparse.revertTo (h : Sparse w) (n : Nat) : Sparse (w.revertTo n) := by
  rw [revertTo_eq]
  constructor
  · exact h.accounts.rewind fun c hc => h.journal c (List.mem_of_mem_take hc)
  · intro c hc
    exact h.journal c (List.mem_of_mem_drop hc)

lemma Sparse.apply (h : Sparse w) (op : WorldOp) : Sparse (op.apply w) := by
  cases op with
  | createAccount a => exact h.createAccount a
  | setNonce a nonce | setCode a code => exact (h.ensure a).adjust_note a (fun _ => id) trivial
  | addBalance a value | subBalance a value =>
    exact (h.ensure a).adjust_note a (fun _ => id) trivial
  | setStorage a slot value => exact h.setStorage a slot value
  | log entry => exact h.log entry
  | selfDestruct a => exact h.selfDestruct a
  | snapshot => exact h
  | revertTo n => exact h.revertTo n

lemma Sparse.settle (h : Sparse w) : Sparse w.settle := by
  constructor
  · intro a account haccount
    rw [settle_account?] at haccount
    split at haccount
    · cases haccount
    · exact h.accounts a account haccount
  · exact fun c hc => absurd hc List.not_mem_nil

end Worlds

/-- What is done to a world over the messages that it goes through. -/
inductive WorldStep
  | operate (op : WorldOp)
  | settle

def WorldStep.apply (w : World) : WorldStep → World
  | operate op => op.apply w
  | settle => w.settle

def applySteps (w : World) (steps : List WorldStep) : World := steps.foldl WorldStep.apply w

lemma Sparse.applySteps {w : World} (h : Sparse w) (steps : List WorldStep) :
    Sparse (applySteps w steps) := by
  induction steps generalizing w with
  | nil => exact h
  | cons step rest ih =>
    cases step with
    | operate op => exact ih (h.apply op)
    | settle => exact ih h.settle

lemma sparse_ofAccounts {accounts : Std.ExtTreeMap Address Account}
    (h : ∀ (a : Address) (account : Account), accounts[a]? = some account →
      HoldsNoZero account.storage) :
    Sparse (.ofAccounts accounts) :=
  ⟨h, fun _ hc => absurd hc List.not_mem_nil⟩

lemma applyOps_append (w : World) (first second : List WorldOp) :
    applyOps w (first ++ second) = applyOps (applyOps w first) second :=
  List.foldl_append

lemma WorldChange.operations {self : Address} {w w' : World} (h : WorldChange self w w') :
    ∃ ops, w' = applyOps w ops := by
  cases h with
  | store slot value => exact ⟨[.setStorage self slot value], rfl⟩
  | log topics data => exact ⟨[.log ⟨self, topics, data⟩], rfl⟩
  | raiseNonce _ => exact ⟨[.setNonce self (w.nonce self + 1)], rfl⟩
  | materialize _ | found _ _ => exact ⟨[.createAccount self], rfl⟩
  | move t _ => exact ⟨[.subBalance t.source t.value, .addBalance t.target t.value], rfl⟩
  | destroy target =>
    exact ⟨[.subBalance self (w.balance self), .addBalance target (w.balance self),
      .selfDestruct self], rfl⟩
  | deposit created code => exact ⟨[.setCode created code], rfl⟩

/-- What a frame makes of the world, it makes by operations on it. -/
lemma Evolves.operations {self : Address} {ex ex' : Executor} (h : Evolves self ex ex') :
    ∃ ops, ex'.world = applyOps ex.world ops := by
  induction h with
  | refl self ex | record self ex e => exact ⟨[], rfl⟩
  | emit self ex listener event => exact ⟨[], emit_world ex listener event⟩
  | trans _ _ ih ih' =>
    obtain ⟨first, hfirst⟩ := ih
    obtain ⟨second, hsecond⟩ := ih'
    exact ⟨first ++ second, by rw [hsecond, hfirst, applyOps_append]⟩
  | change h => exact h.operations
  -- Closing a frame either keeps its world or gives back the one that it was entered with.
  | nested closing h ih =>
    rw [close_world closing h.keeps, closedWorld]
    split
    · exact ih
    · exact ⟨[], rfl⟩

lemma executeMessage_operations {ex after : Executor} {m : Message} {outcome : Creation}
    (h : ex.executeMessage m = some (outcome, after)) :
    ∃ ops, after.world = applyOps ex.world ops := by
  have hstart : ∃ ops, (messageStart ex m).world = applyOps ex.world ops := by
    unfold messageStart
    cases m.recipient with
    | none => exact ⟨[], rfl⟩
    | some recipient =>
      obtain ⟨ops, hops⟩ := (ensureAccount_evolves recipient ex).operations
      let nonce := (ex.ensureAccount recipient).world.nonce m.sender + 1
      refine ⟨ops ++ [WorldOp.setNonce m.sender nonce], ?_⟩
      rw [applyOps_append, ← hops]
      rfl
  obtain ⟨first, hfirst⟩ := hstart
  obtain ⟨second, hsecond⟩ := (executeMessage_transacted h).evolves.operations
  exact ⟨first ++ second, by rw [hsecond, hfirst, applyOps_append]⟩

/-- So does a message, which is settled at the end if it is accepted. -/
lemma applyMessage_steps {ex : Executor} {m : Message} {pool : GasPool} {applied : Applied}
    (h : ex.applyMessage m pool = some applied) :
    ∃ steps, applied.executor.world = applySteps ex.world steps := by
  obtain hsame | ⟨outcome, after, hexecuted, hworld⟩ := applyMessage_world h
  · exact ⟨[], hsame⟩
  · obtain ⟨first, hfirst⟩ := (ensureAccount_evolves m.sender ex).operations
    obtain ⟨second, hsecond⟩ := executeMessage_operations hexecuted
    refine ⟨(first ++ second).map .operate ++ [.settle], ?_⟩
    rw [hworld, hsecond, hfirst, ← applyOps_append, applySteps, List.foldl_append,
      List.foldl_map]
    rfl

/-- The account has the content that a test gives, slot by slot. -/
structure Meets (got : Account) (content : AccountContent) : Prop where
  balance : got.balance = content.balance
  nonce : got.nonce = content.nonce
  code : got.code = content.code
  storage : ∀ slot, got.load slot = content.storage.getD slot 0

lemma sparse_world (t : StateTest) : Sparse t.world := by
  apply sparse_ofAccounts
  intro a account haccount
  rw [Std.ExtTreeMap.getElem?_map] at haccount
  obtain ⟨content, -, rfl⟩ := Option.map_eq_some_iff.mp haccount
  exact holdsNoZero_nonzeros content.storage

lemma storage_eq_iff {got : Account} (h : HoldsNoZero got.storage) (content : AccountContent) :
    got.storage = content.toAccount.storage ↔
      ∀ slot, got.load slot = content.storage.getD slot 0 := by
  unfold AccountContent.toAccount
  simp only [h.eq_iff (holdsNoZero_nonzeros content.storage), getD_nonzeros, Account.load]

lemma require_bind (condition : Bool) (mismatch : Mismatch) (rest : Verdict) :
    (do Verdict.require condition mismatch; rest) =
      if condition = true then rest else .error mismatch := by
  cases condition <;> rfl

lemma judgeAccount_eq {w : World} {address : Address} {content : AccountContent} {got : Account}
    (h : w.account? address = some got) :
    Expectation.judgeAccount w address content =
      if got.balance = content.balance then
        if got.nonce = content.nonce then
          if got.code = content.code then
            if got.storage = content.toAccount.storage then .ok ()
            else .error (.account address .storage)
          else .error (.account address .code)
        else .error (.account address .nonce)
      else .error (.account address .balance) := by
  simp only [Expectation.judgeAccount, h, require_bind, beq_iff_eq]
  simp only [Verdict.require, decide_eq_true_eq]
  rfl

/-- The verdict on an account that holds no zero goes by what its slots read. -/
lemma judgeAccount_iff {w : World} {address : Address} {content : AccountContent} {got : Account}
    (h : w.account? address = some got) (hzeros : HoldsNoZero got.storage) :
    (Expectation.judgeAccount w address content = .ok () ↔ Meets got content) ∧
    (Expectation.judgeAccount w address content = .error (.account address .storage) ↔
      got.balance = content.balance ∧ got.nonce = content.nonce ∧ got.code = content.code ∧
        ∃ slot, got.load slot ≠ content.storage.getD slot 0) := by
  rw [judgeAccount_eq h, ← not_forall, ← storage_eq_iff hzeros]
  constructor
  · constructor
    · intro hpass
      split_ifs at hpass with hbalance hnonce hcode hstorage
      exact ⟨hbalance, hnonce, hcode, (storage_eq_iff hzeros content).mp hstorage⟩
    · intro hmeets
      rw [if_pos hmeets.balance, if_pos hmeets.nonce, if_pos hmeets.code,
        if_pos ((storage_eq_iff hzeros content).mpr hmeets.storage)]
  · constructor
    · intro hdiffers
      split_ifs at hdiffers with hbalance hnonce hcode hstorage
      · exact ⟨hbalance, hnonce, hcode, hstorage⟩
      all_goals cases hdiffers
    · rintro ⟨hbalance, hnonce, hcode, hstorage⟩
      rw [if_pos hbalance, if_pos hnonce, if_pos hcode, if_neg hstorage]

/-- No storage ever holds a zero, whatever is done to a world of accounts without zeros. The world
that a state test comes to is therefore compared by content: where an account is expected, the two
maps are the same exactly if every slot reads the same, and so the verdict on the account says. -/
theorem storages_hold_no_zero :
    (∀ accounts : Std.ExtTreeMap Address Account,
      (∀ (a : Address) (account : Account), accounts[a]? = some account →
        HoldsNoZero account.storage) →
      ∀ steps a account, (applySteps (.ofAccounts accounts) steps).account? a = some account →
        HoldsNoZero account.storage) ∧
    ∀ t : StateTest, ∃ applied, t.apply = some applied ∧
      ∀ address content got, applied.executor.world.account? address = some got →
        (got.storage = content.toAccount.storage ↔
          ∀ slot, got.load slot = content.storage.getD slot 0) ∧
        (Expectation.judgeAccount applied.executor.world address content = .ok () ↔
          Meets got content) ∧
        (Expectation.judgeAccount applied.executor.world address content =
            .error (.account address .storage) ↔
          got.balance = content.balance ∧ got.nonce = content.nonce ∧ got.code = content.code ∧
            ∃ slot, got.load slot ≠ content.storage.getD slot 0) := by
  constructor
  · intro accounts haccounts steps a account haccount
    exact ((sparse_ofAccounts haccounts).applySteps steps).accounts a account haccount
  · intro t
    have hordinary : Ordinary (Executor.new t.world (.ofFork t.fork) t.environment) := by
      refine ⟨?_, metered_ofFork t.fork⟩
      cases t.fork with
      | frontier => exact .inl rfl
      | homestead => exact .inr rfl
    have hquotient : (Rules.ofFork t.fork).maxRefundQuotient ≠ 0 := by
      cases t.fork <;> decide
    obtain ⟨applied, happlied⟩ := applyMessage_ends hordinary hquotient t.message
      (.ofNat (t.gasPool.getD t.message.gasLimit))
    obtain ⟨steps, hsteps⟩ := applyMessage_steps happlied
    refine ⟨applied, happlied, ?_⟩
    intro address content got hgot
    have hzeros : HoldsNoZero got.storage := by
      rw [hsteps] at hgot
      exact ((sparse_world t).applySteps steps).accounts address got hgot
    exact ⟨storage_eq_iff hzeros content, judgeAccount_iff hgot hzeros⟩

/-- An account whose code empties the first slot and fills the second. -/
def clearingAccount : Account :=
  ⟨0, 0, Std.ExtTreeMap.empty.insert 1 5,
    #[0x60, 0, 0x60, 1, 0x55, 0x60, 9, 0x60, 2, 0x55]⟩

/-- A test of that account, which is given and expected with zeros in its storage. -/
def clearingTest : StateTest where
  fork := .frontier
  environment := .zero
  gasPool := none
  pre := Std.ExtTreeMap.empty.insert 0xb
    ⟨0, 0, clearingAccount.code, clearingAccount.storage.insert 3 0⟩
  message := ⟨0xa, some 0xb, 0, 0, true, #[], 90000⟩
  expect := ⟨none, false, none, none, ∅, []⟩

theorem storages_hold_no_zero_clearingTest :
    (∃ account, (applySteps (.ofAccounts (Std.ExtTreeMap.empty.insert 0xb clearingAccount))
        [.operate (.setStorage 0xb 1 0), .operate (.revertTo 0), .settle,
          .operate (.setStorage 0xb 2 0)]).account? 0xb = some account ∧
      HoldsNoZero account.storage) ∧
    ∃ applied, clearingTest.apply = some applied ∧
      Expectation.judgeAccount applied.executor.world 0xb
        ⟨0, 0, clearingAccount.code, (Std.ExtTreeMap.empty.insert 1 0).insert 2 9⟩ = .ok () := by
  constructor
  · have hstart : ∀ (a : Address) (account : Account),
        (Std.ExtTreeMap.empty.insert 0xb clearingAccount : Std.ExtTreeMap Address Account)[a]? =
          some account → HoldsNoZero account.storage := by
      intro a account haccount
      rw [Std.ExtTreeMap.getElem?_insert] at haccount
      split at haccount
      · cases haccount
        exact holdsNoZero_empty.insert 1 (by decide)
      · simp at haccount
    have hpresent : ((applySteps (.ofAccounts (Std.ExtTreeMap.empty.insert 0xb clearingAccount))
        [.operate (.setStorage 0xb 1 0), .operate (.revertTo 0), .settle,
          .operate (.setStorage 0xb 2 0)]).account? 0xb).isSome = true := by decide +kernel
    obtain ⟨account, haccount⟩ := Option.isSome_iff_exists.mp hpresent
    exact ⟨account, haccount, storages_hold_no_zero.1 _ hstart _ _ _ haccount⟩
  · obtain ⟨applied, happlied, hjudged⟩ := storages_hold_no_zero.2 clearingTest
    have hleft : clearingTest.apply.map (fun applied => applied.executor.world.account? 0xb) =
        some (some ⟨0, 0, Std.ExtTreeMap.empty.insert 2 9, clearingAccount.code⟩) := by
      decide +kernel
    rw [happlied] at hleft
    have hgot := Option.some.inj hleft
    refine ⟨applied, happlied, (hjudged 0xb _ _ hgot).2.1.mpr ⟨rfl, rfl, rfl, ?_⟩⟩
    intro slot
    simp only [Account.load, Std.ExtTreeMap.getD_insert]
    split
    · rfl
    · simp

end ContractMachine.Proofs
