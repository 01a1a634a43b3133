import ContractMachine.World
import Mathlib.Tactic.Lemma

/-!
# Rolling a world back

`Extends s w` says that the journal of `w` can take `w` back to `s` one change at a time.
Every operation on a world extends it, and so does going back to a snapshot that is not
older than `s`. The main result is that returning to the snapshot of `s` then gives `s`
in every component, whatever was done in between.
-/

namespace ContractMachine.Proofs

section Maps

variable {α β : Type} [Ord α] [Std.TransOrd α] [Std.LawfulEqOrd α] {m m' : Std.ExtTreeMap α β}

lemma map_eq_of_key (a : α) (ha : m'[a]? = m[a]?) (hne : ∀ k, a ≠ k → m'[k]? = m[k]?) :
    m' = m := by
  apply Std.ExtTreeMap.ext_getElem?
  intro k
  by_cases hk : a = k
  · subst hk
    exact ha
  · exact hne k hk

lemma erase_insert_absent {a : α} (b : β) (h : m[a]? = none) : (m.insert a b).erase a = m := by
  apply map_eq_of_key a
  · simp [h]
  · intro k hk
    simp [Std.ExtTreeMap.getElem?_erase, Std.ExtTreeMap.getElem?_insert, hk]

lemma insert_insert_present {a : α} (b : β) {old : β} (h : m[a]? = some old) :
    (m.insert a b).insert a old = m := by
  apply map_eq_of_key a
  · simp [h]
  · intro k hk
    simp [Std.ExtTreeMap.getElem?_insert, hk]

lemma insert_erase_present {a : α} {old : β} (h : m[a]? = some old) :
    (m.erase a).insert a old = m := by
  apply map_eq_of_key a
  · simp [h]
  · intro k hk
    simp [Std.ExtTreeMap.getElem?_erase, Std.ExtTreeMap.getElem?_insert, hk]

lemma erase_absent {a : α} (h : m[a]? = none) : m.erase a = m := by
  apply map_eq_of_key a
  · simp [h]
  · intro k hk
    simp [Std.ExtTreeMap.getElem?_erase, hk]

/-- A change of one value is undone by a second one that inverts it at the value held. -/
lemma modify_modify_inverse {a : α} {f g : β → β} (h : ∀ b, m[a]? = some b → g (f b) = b) :
    (m.modify a f).modify a g = m := by
  apply map_eq_of_key a
  · cases hb : m[a]? with
    | none => simp [hb]
    | some b => simp [hb, h b hb]
  · intro k hk
    simp [Std.ExtTreeMap.getElem?_modify, hk]

end Maps

/-- The world once these changes are taken back, the first of the list first. -/
def rewind (w : World) (changes : List Change) : World := changes.foldl World.undo w

/-- The journal of `w` leads back to `s`. -/
def Extends (s w : World) : Prop :=
  ∃ changes, w.journal.changes = changes ++ s.journal.changes ∧
    { rewind w changes with journal := s.journal } = s

lemma undo_withJournal (w : World) (j : Journal) (c : Change) :
    { w with journal := j }.undo c = { w.undo c with journal := j } := by
  cases c with
  | account a previous => cases previous <;> rfl
  | _ => rfl

lemma rewind_withJournal (w : World) (j : Journal) (changes : List Change) :
    rewind { w with journal := j } changes = { rewind w changes with journal := j } := by
  induction changes generalizing w with
  | nil => rfl
  | cons c rest ih =>
    simp only [rewind, List.foldl_cons] at ih ⊢
    rw [undo_withJournal, ih]

lemma rewind_append (w : World) (first second : List Change) :
    rewind w (first ++ second) = rewind (rewind w first) second :=
  List.foldl_append

theorem Extends.refl (w : World) : Extends w w := ⟨[], rfl, rfl⟩

theorem Extends.trans {s w x : World} (hsw : Extends s w) (hwx : Extends w x) : Extends s x := by
  obtain ⟨early, hearly, hs⟩ := hsw
  obtain ⟨late, hlate, hw⟩ := hwx
  refine ⟨late ++ early, by rw [hlate, hearly, List.append_assoc], ?_⟩
  have hback : { rewind (rewind x late) early with journal := w.journal } = rewind w early := by
    rw [← rewind_withJournal, hw]
  rw [rewind_append]
  calc { rewind (rewind x late) early with journal := s.journal }
      = { rewind w early with journal := s.journal } := by rw [← hback]
    _ = s := hs

/-- One noted change extends a world if taking it back gives the world again. -/
lemma extends_note {w v : World} {c : Change} (hj : v.journal = w.journal) (h : v.undo c = w) :
    Extends w (v.note c) := by
  refine ⟨[c], ?_, ?_⟩
  · simp [World.note, Journal.push, hj]
  · have hundo : rewind (v.note c) [c] = { w with journal := (v.note c).journal } := by
      simp only [rewind, List.foldl_cons, List.foldl_nil, World.note]
      rw [undo_withJournal, h]
    rw [hundo]

/-- Unwinding to `n` changes takes back the latest ones until `n` are left. -/
lemma unwind_eq (n : Nat) (w : World) (changes : List Change) (size : Nat)
    (h : size = changes.length) :
    World.unwind n w changes size h =
      { rewind w (changes.take (size - n)) with
        journal := .ofChanges (changes.drop (size - n)) _ rfl } := by
  induction changes generalizing w size with
  | nil =>
    have hjournal : Journal.empty = .ofChanges (List.drop (size - n) []) _ rfl :=
      Journal.ext (by simp [Journal.ofChanges, Journal.empty])
    rw [World.unwind, hjournal]
    simp [rewind]
  | cons c rest ih =>
    rw [World.unwind]
    by_cases hn : size ≤ n
    · have hk : size - n = 0 := by omega
      subst h
      simp only [if_pos hn, hk, List.take_zero, List.drop_zero]
      rfl
    · have hlen : size = rest.length + 1 := by simpa using h
      have hk : size - n = (size - 1 - n) + 1 := by omega
      rw [if_neg hn, ih]
      simp only [hk, List.take_succ_cons, List.drop_succ_cons, rewind, List.foldl_cons]

lemma revertTo_eq (w : World) (n : Nat) :
    w.revertTo n =
      { rewind w (w.journal.changes.take (w.journal.size - n)) with
        journal := .ofChanges (w.journal.changes.drop (w.journal.size - n)) _ rfl } :=
  unwind_eq n w _ _ _

/-- Going back to the snapshot of an earlier world gives that world. -/
theorem Extends.revertTo {s w : World} (h : Extends s w) : w.revertTo s.snapshot = s := by
  obtain ⟨changes, hchanges, hs⟩ := h
  have hsize : w.journal.size - s.snapshot = changes.length := by
    rw [World.snapshot, w.journal.size_eq, s.journal.size_eq, hchanges, List.length_append]
    omega
  have hjournal : Journal.ofChanges (w.journal.changes.drop changes.length) _ rfl = s.journal :=
    Journal.ext (by simp [Journal.ofChanges, hchanges])
  rw [revertTo_eq, hsize, hjournal, hchanges, List.take_left]
  exact hs

/-- Going back to a snapshot that is not older than `s` keeps the way back to `s`. -/
theorem Extends.revertTo_of_le {s w : World} (h : Extends s w) {n : Nat} (hn : s.snapshot ≤ n) :
    Extends s (w.revertTo n) := by
  obtain ⟨changes, hchanges, hs⟩ := h
  have hk : w.journal.size - n ≤ changes.length := by
    have hsnap : s.journal.changes.length ≤ n := by rw [← s.journal.size_eq]; exact hn
    rw [w.journal.size_eq, hchanges, List.length_append]
    omega
  generalize hgen : w.journal.size - n = k at hk
  refine ⟨changes.drop k, ?_, ?_⟩
  · rw [revertTo_eq, hgen]
    simp [Journal.ofChanges, hchanges, List.drop_append_of_le_length hk]
  · rw [revertTo_eq, hgen, rewind_withJournal, hchanges, List.take_append_of_le_length hk,
      ← rewind_append, List.take_append_drop]
    exact hs

lemma account?_eq_none {w : World} {a : Address} (h : w.exists? a = false) :
    w.accounts[a]? = none :=
  Std.ExtTreeMap.getElem?_eq_none_of_contains_eq_false h

lemma view_of_account? {w : World} {a : Address} {account : Account}
    (h : w.accounts[a]? = some account) : w.view a = account := by
  simp [World.view, World.account?, h]

/-- A change of one account, noted with what it was before, extends the world. -/
lemma extends_adjust_note {w : World} {a : Address} {f g : Account → Account} {c : Change}
    (hc : ∀ v : World, v.undo c = v.adjust a g) (hg : g (f (w.view a)) = w.view a) :
    Extends w ((w.adjust a f).note c) := by
  have hmap : (w.accounts.modify a f).modify a g = w.accounts := by
    apply modify_modify_inverse
    intro account hget
    rw [← view_of_account? hget]
    exact hg
  apply extends_note
  · rfl
  · rw [hc]
    simp only [World.adjust, hmap]

lemma extends_ensure (w : World) (a : Address) : Extends w (w.ensure a) := by
  unfold World.ensure
  by_cases h : w.exists? a = true
  · rw [if_pos h]
    exact Extends.refl w
  · rw [if_neg h]
    have habsent : w.accounts[a]? = none := account?_eq_none (by simpa using h)
    apply extends_note
    · rfl
    · simp only [World.undo, erase_insert_absent _ habsent]

lemma extends_createAccount (w : World) (a : Address) : Extends w (w.createAccount a) := by
  unfold World.createAccount
  apply extends_note
  · rfl
  · cases h : w.account? a with
    | none => simp only [World.undo, erase_insert_absent _ h]
    | some old => simp only [World.undo, insert_insert_present _ h]

lemma extends_setNonce (w : World) (a : Address) (nonce : UInt64) :
    Extends w (w.setNonce a nonce) :=
  (extends_ensure w a).trans (extends_adjust_note (fun _ => rfl) rfl)

lemma extends_setBalance (w : World) (a : Address) (balance : Word) :
    Extends w (w.setBalance a balance) :=
  (extends_ensure w a).trans (extends_adjust_note (fun _ => rfl) rfl)

lemma extends_setCode (w : World) (a : Address) (code : Bytes) : Extends w (w.setCode a code) :=
  (extends_ensure w a).trans (extends_adjust_note (fun _ => rfl) rfl)

/-- Giving a slot back what it held undoes a write to it, also where zero emptied it. -/
lemma restore_store (account : Account) (slot value : Word) :
    (account.store slot value).restore slot account.storage[slot]? = account := by
  obtain ⟨nonce, balance, storage, code⟩ := account
  simp only [Account.store]
  by_cases hv : value = 0
  · cases hs : storage[slot]? with
    | none => simp only [if_pos hv, Account.restore, erase_absent hs]
    | some old => simp only [if_pos hv, Account.restore, insert_erase_present hs]
  · cases hs : storage[slot]? with
    | none => simp only [if_neg hv, Account.restore, erase_insert_absent _ hs]
    | some old => simp only [if_neg hv, Account.restore, insert_insert_present _ hs]

lemma extends_setStorage (w : World) (a : Address) (slot value : Word) :
    Extends w (w.setStorage a slot value) :=
  (extends_ensure w a).trans (extends_adjust_note (fun _ => rfl) (restore_store _ slot value))

lemma extends_log (w : World) (entry : Log) : Extends w (w.log entry) :=
  extends_note rfl rfl

lemma erase_insert_mark {marked : Std.ExtTreeSet Address} {a : Address}
    (h : marked.contains a = false) : (marked.insert a).erase a = marked := by
  have hnot : a ∉ marked := by
    rw [← Std.ExtTreeSet.contains_iff_mem, h]
    simp
  apply Std.ExtTreeSet.ext_mem
  intro k
  by_cases hk : a = k
  · subst hk
    simp [hnot]
  · simp [hk]

lemma insert_mark_present {marked : Std.ExtTreeSet Address} {a : Address}
    (h : marked.contains a = true) : marked.insert a = marked := by
  have hmem : a ∈ marked := by simpa using h
  apply Std.ExtTreeSet.ext_mem
  intro k
  by_cases hk : a = k
  · subst hk
    simp [hmem]
  · simp [hk]

lemma extends_selfDestruct (w : World) (a : Address) : Extends w (w.selfDestruct a) := by
  have hmap : (w.accounts.modify a fun account => { account with balance := 0 }).modify a
      (fun account => { account with balance := w.balance a }) = w.accounts := by
    apply modify_modify_inverse
    intro account hget
    simp only [World.balance, view_of_account? hget]
  unfold World.selfDestruct
  apply extends_note
  · rfl
  · cases hm : w.marked.contains a with
    | true => simp only [World.undo, World.adjust, World.isMarked, hm, hmap, if_true,
        insert_mark_present hm]
    | false => simp only [World.undo, World.adjust, World.isMarked, hm, hmap, if_false,
        erase_insert_mark hm, Bool.false_eq_true]

/-- The operations on a world that its journal covers. -/
inductive WorldOp
  | createAccount (a : Address)
  | setNonce (a : Address) (nonce : UInt64)
  | addBalance (a : Address) (value : Word)
  | subBalance (a : Address) (value : Word)
  | setCode (a : Address) (code : Bytes)
  | setStorage (a : Address) (slot value : Word)
  | log (entry : Log)
  | selfDestruct (a : Address)
  /-- Marks the state, which changes nothing. -/
  | snapshot
  | revertTo (n : Nat)

def WorldOp.apply (w : World) : WorldOp → World
  | createAccount a => w.createAccount a
  | setNonce a nonce => w.setNonce a nonce
  | addBalance a value => w.addBalance a value
  | subBalance a value => w.subBalance a value
  | setCode a code => w.setCode a code
  | setStorage a slot value => w.setStorage a slot value
  | log entry => w.log entry
  | selfDestruct a => w.selfDestruct a
  | snapshot => w
  | revertTo n => w.revertTo n

/-- The world after these operations, the first of the list first. -/
def applyOps (w : World) (ops : List WorldOp) : World := ops.foldl WorldOp.apply w

/-- One operation keeps the way back to `s`, if it does not itself go back beyond `s`. -/
lemma extends_apply {s w : World} (h : Extends s w) (op : WorldOp)
    (hop : ∀ n, op = .revertTo n → s.snapshot ≤ n) : Extends s (op.apply w) := by
  cases op with
  | createAccount a => exact h.trans (extends_createAccount w a)
  | setNonce a nonce => exact h.trans (extends_setNonce w a nonce)
  | addBalance a value => exact h.trans (extends_setBalance w a _)
  | subBalance a value => exact h.trans (extends_setBalance w a _)
  | setCode a code => exact h.trans (extends_setCode w a code)
  | setStorage a slot value => exact h.trans (extends_setStorage w a slot value)
  | log entry => exact h.trans (extends_log w entry)
  | selfDestruct a => exact h.trans (extends_selfDestruct w a)
  | snapshot => exact h
  | revertTo n => exact h.revertTo_of_le (hop n rfl)

lemma extends_applyOps {s w : World} (h : Extends s w) (ops : List WorldOp)
    (hops : ∀ n, WorldOp.revertTo n ∈ ops → s.snapshot ≤ n) : Extends s (applyOps w ops) := by
  induction ops generalizing w with
  | nil => exact h
  | cons op rest ih =>
    have hop : Extends s (op.apply w) := by
      apply extends_apply h op
      intro n hn
      exact hops n (by simp [hn])
    exact ih hop fun n hn => hops n (List.mem_cons_of_mem op hn)

/-- Going back to a snapshot undoes everything since, nested snapshots included: the accounts
with their storage, the marks, the logs and the journal are those of the snapshot. -/
theorem revertTo_snapshot_applyOps (s : World) (ops : List WorldOp)
    (hops : ∀ n, WorldOp.revertTo n ∈ ops → s.snapshot ≤ n) :
    (applyOps s ops).revertTo s.snapshot = s :=
  (extends_applyOps (Extends.refl s) ops hops).revertTo

/-- A world with changes pending, and with an account whose storage holds a zero. -/
def pendingWorld : World :=
  let accounts : Std.ExtTreeMap Address Account := Std.ExtTreeMap.empty.insert 7
    ⟨1, 5, Std.ExtTreeMap.empty.insert 0 0, #[]⟩
  ((World.ofAccounts accounts).setNonce 7 2).log ⟨7, [], #[]⟩

theorem revertTo_snapshot_applyOps_pendingWorld :
    pendingWorld.snapshot = 2 ∧
      (applyOps pendingWorld [.setStorage 7 0 1, .snapshot, .selfDestruct 7, .createAccount 7,
        .addBalance 8 3, .revertTo 3, .setStorage 7 0 0, .createAccount 7]).revertTo 2 =
        pendingWorld := by
  have hsize : pendingWorld.snapshot = 2 := by decide +kernel
  refine ⟨hsize, ?_⟩
  rw [← hsize]
  apply revertTo_snapshot_applyOps
  intro n hn
  have hn3 : n = 3 := by simpa using hn
  omega

end ContractMachine.Proofs
