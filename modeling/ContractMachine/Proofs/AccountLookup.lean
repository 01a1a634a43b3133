import ContractMachine.Proofs.Rollback

/-!
# What operations on the world leave at an address

Every operation on the world changes at most one account. These lemmas tell which account stands
at an address afterwards; what holds of balances and of read-only frames is read off from them.
-/

namespace ContractMachine.Proofs

lemma view_eq_getD (w : World) (a : Address) : w.view a = (w.account? a).getD .empty := rfl

lemma exists?_eq_isSome (w : World) (a : Address) : w.exists? a = (w.account? a).isSome :=
  Std.ExtTreeMap.contains_eq_isSome_getElem?

@[simp] lemma note_account? (w : World) (c : Change) (a : Address) :
    (w.note c).account? a = w.account? a := rfl

lemma insert_account? (w : World) (a b : Address) (account : Account) :
    ({ w with accounts := w.accounts.insert a account } : World).account? b =
      if a = b then some account else w.account? b := by
  simp [World.account?, Std.ExtTreeMap.getElem?_insert]

lemma adjust_account? (w : World) (a b : Address) (f : Account → Account) :
    (w.adjust a f).account? b = if a = b then (w.account? a).map f else w.account? b := by
  by_cases hab : a = b
  · subst hab
    simp [World.account?, World.adjust]
  · simp [World.account?, World.adjust, Std.ExtTreeMap.getElem?_modify, hab]

lemma account?_of_exists {w : World} {a : Address} (h : w.exists? a = true) :
    w.account? a = some (w.view a) := by
  cases ha : w.account? a with
  | none =>
    have hpresent : a ∈ w.accounts := Std.ExtTreeMap.mem_iff_contains.mpr h
    have habsent : ¬a ∈ w.accounts := by simpa [World.account?] using ha
    exact absurd hpresent habsent
  | some account => rw [view_eq_getD, ha, Option.getD_some]

lemma ensure_account? (w : World) (a b : Address) :
    (w.ensure a).account? b = if a = b then some (w.view a) else w.account? b := by
  unfold World.ensure
  by_cases h : w.exists? a = true
  · rw [if_pos h]
    by_cases hab : a = b
    · subst hab
      rw [if_pos rfl, account?_of_exists h]
    · rw [if_neg hab]
  · rw [if_neg h, note_account?, insert_account?]
    have habsent : w.account? a = none := account?_eq_none (by simpa using h)
    rw [view_eq_getD, habsent, Option.getD_none]

/-- What a change of one account makes of the world, where it makes the account first if there is
none. -/
lemma ensure_adjust_account? (w : World) (a b : Address) (f : Account → Account) (c : Change) :
    (((w.ensure a).adjust a f).note c).account? b =
      if a = b then some (f (w.view a)) else w.account? b := by
  rw [note_account?, adjust_account?, ensure_account?, ensure_account?]
  by_cases hab : a = b
  · rw [if_pos hab, if_pos hab, if_pos rfl, Option.map_some]
  · rw [if_neg hab, if_neg hab, if_neg hab]

lemma createAccount_account? (w : World) (a b : Address) :
    (w.createAccount a).account? b =
      if a = b then some { Account.empty with nonce := w.nonce a, balance := w.balance a }
      else w.account? b := by
  unfold World.createAccount
  simp only [note_account?, insert_account?]
  by_cases hab : a = b
  · rw [if_pos hab, if_pos hab]
    cases h : w.account? a with
    | none => simp [World.nonce, World.balance, view_eq_getD, h, Account.empty]
    | some old => simp [World.nonce, World.balance, view_eq_getD, h]
  · rw [if_neg hab, if_neg hab]

lemma setNonce_account? (w : World) (a b : Address) (nonce : UInt64) :
    (w.setNonce a nonce).account? b =
      if a = b then some { w.view a with nonce := nonce } else w.account? b :=
  ensure_adjust_account? w a b _ _

lemma setBalance_account? (w : World) (a b : Address) (balance : Word) :
    (w.setBalance a balance).account? b =
      if a = b then some { w.view a with balance := balance } else w.account? b :=
  ensure_adjust_account? w a b _ _

lemma setCode_account? (w : World) (a b : Address) (code : Bytes) :
    (w.setCode a code).account? b =
      if a = b then some { w.view a with code := code } else w.account? b :=
  ensure_adjust_account? w a b _ _

lemma setStorage_account? (w : World) (a b : Address) (slot value : Word) :
    (w.setStorage a slot value).account? b =
      if a = b then some ((w.view a).store slot value) else w.account? b :=
  ensure_adjust_account? w a b _ _

lemma selfDestruct_account? (w : World) (a b : Address) :
    (w.selfDestruct a).account? b =
      if a = b then (w.account? a).map fun account => { account with balance := 0 }
      else w.account? b := by
  unfold World.selfDestruct
  rw [note_account?, adjust_account?]
  rfl

lemma settle_account? (w : World) (a : Address) :
    w.settle.account? a = if w.isMarked a then none else w.account? a := by
  simp only [World.account?, World.settle, World.isMarked, Std.ExtTreeMap.getElem?_filter']
  cases w.accounts[a]? with
  | none => simp
  | some account => by_cases hmarked : w.marked.contains a = true <;> simp [hmarked]

lemma ensure_marked (w : World) (a : Address) : (w.ensure a).marked = w.marked := by
  unfold World.ensure
  split <;> rfl

lemma ensure_trail (w : World) (a : Address) : (w.ensure a).trail = w.trail := by
  unfold World.ensure
  split <;> rfl

lemma setBalance_marked (w : World) (a : Address) (balance : Word) :
    (w.setBalance a balance).marked = w.marked := ensure_marked w a

lemma setBalance_trail (w : World) (a : Address) (balance : Word) :
    (w.setBalance a balance).trail = w.trail := ensure_trail w a

lemma setNonce_marked (w : World) (a : Address) (nonce : UInt64) :
    (w.setNonce a nonce).marked = w.marked := ensure_marked w a

lemma setNonce_trail (w : World) (a : Address) (nonce : UInt64) :
    (w.setNonce a nonce).trail = w.trail := ensure_trail w a

lemma view_of_replaced {w w' : World} {a : Address} {account : Account}
    (h : ∀ b, w'.account? b = if a = b then some account else w.account? b) (b : Address) :
    w'.view b = if a = b then account else w.view b := by
  rw [view_eq_getD, h]
  by_cases hab : a = b
  · rw [if_pos hab, if_pos hab, Option.getD_some]
  · rw [if_neg hab, if_neg hab, view_eq_getD]

/-- Where one account is replaced by another that is the same in `part`. -/
lemma same_of_replaced {β : Type} (part : Account → β) {w w' : World} {a : Address}
    {account : Account}
    (h : ∀ b, w'.account? b = if a = b then some account else w.account? b)
    (hsame : part account = part (w.view a)) (b : Address) :
    part (w'.view b) = part (w.view b) := by
  rw [view_of_replaced h]
  by_cases hab : a = b
  · rw [if_pos hab, hsame, hab]
  · rw [if_neg hab]

lemma selfDestruct_view (w : World) (a b : Address) :
    (w.selfDestruct a).view b = if a = b then { w.view b with balance := 0 } else w.view b := by
  rw [view_eq_getD, selfDestruct_account?, view_eq_getD]
  by_cases hab : a = b
  · rw [if_pos hab, if_pos hab, hab]
    cases w.account? b <;> rfl
  · rw [if_neg hab, if_neg hab]

lemma settle_view (w : World) (a : Address) :
    w.settle.view a = if w.isMarked a then .empty else w.view a := by
  rw [view_eq_getD, settle_account?, view_eq_getD]
  split <;> rfl

lemma setBalance_view (w : World) (a b : Address) (balance : Word) :
    (w.setBalance a balance).view b =
      if a = b then { w.view a with balance := balance } else w.view b :=
  view_of_replaced (fun b => setBalance_account? w a b balance) b

lemma balance_of_account? {w w' : World} {a : Address} {account : Account}
    (h : ∀ b, w'.account? b = if a = b then some account else w.account? b) (b : Address) :
    w'.balance b = if a = b then account.balance else w.balance b := by
  rw [World.balance, view_of_replaced h]
  split <;> rfl

lemma createAccount_balance (w : World) (a b : Address) :
    (w.createAccount a).balance b = w.balance b :=
  same_of_replaced Account.balance (createAccount_account? w a) rfl b

lemma setNonce_balance (w : World) (a b : Address) (nonce : UInt64) :
    (w.setNonce a nonce).balance b = w.balance b :=
  same_of_replaced Account.balance (fun b => setNonce_account? w a b nonce) rfl b

lemma setCode_balance (w : World) (a b : Address) (code : Bytes) :
    (w.setCode a code).balance b = w.balance b :=
  same_of_replaced Account.balance (fun b => setCode_account? w a b code) rfl b

lemma setStorage_balance (w : World) (a b : Address) (slot value : Word) :
    (w.setStorage a slot value).balance b = w.balance b :=
  same_of_replaced Account.balance (fun b => setStorage_account? w a b slot value) rfl b

lemma setBalance_balance (w : World) (a b : Address) (balance : Word) :
    (w.setBalance a balance).balance b = if a = b then balance else w.balance b :=
  balance_of_account? (fun b => setBalance_account? w a b balance) b

lemma selfDestruct_balance (w : World) (a b : Address) :
    (w.selfDestruct a).balance b = if a = b then 0 else w.balance b := by
  rw [World.balance, selfDestruct_view]
  split <;> rfl

lemma settle_balance (w : World) (a : Address) :
    w.settle.balance a = if w.isMarked a then 0 else w.balance a := by
  rw [World.balance, settle_view]
  split <;> rfl

lemma createAccount_nonce (w : World) (a b : Address) :
    (w.createAccount a).nonce b = w.nonce b :=
  same_of_replaced Account.nonce (createAccount_account? w a) rfl b

lemma setBalance_nonce (w : World) (a b : Address) (balance : Word) :
    (w.setBalance a balance).nonce b = w.nonce b :=
  same_of_replaced Account.nonce (fun b => setBalance_account? w a b balance) rfl b

lemma setCode_nonce (w : World) (a b : Address) (code : Bytes) :
    (w.setCode a code).nonce b = w.nonce b :=
  same_of_replaced Account.nonce (fun b => setCode_account? w a b code) rfl b

lemma setStorage_nonce (w : World) (a b : Address) (slot value : Word) :
    (w.setStorage a slot value).nonce b = w.nonce b :=
  same_of_replaced Account.nonce (fun b => setStorage_account? w a b slot value) rfl b

lemma setNonce_nonce (w : World) (a b : Address) (nonce : UInt64) :
    (w.setNonce a nonce).nonce b = if a = b then nonce else w.nonce b := by
  rw [World.nonce, view_of_replaced fun b => setNonce_account? w a b nonce]
  split <;> rfl

lemma toNat_succ {nonce : UInt64} (h : nonce ≠ 0xffffffffffffffff) :
    (nonce + 1).toNat = nonce.toNat + 1 := by
  have hbound := nonce.toNat_lt
  have hmax : nonce.toNat ≠ 0xffffffffffffffff := fun hsame => h (UInt64.toNat_inj.mp hsame)
  rw [UInt64.toNat_add]
  exact Nat.mod_eq_of_lt (by simp only [UInt64.toNat_one]; omega)

/-- Raising a nonce that is not the largest adds one to it. -/
lemma raised_nonce {w : World} {a : Address} (h : w.nonce a ≠ 0xffffffffffffffff) :
    ((w.setNonce a (w.nonce a + 1)).nonce a).toNat = (w.nonce a).toNat + 1 := by
  rw [setNonce_nonce, if_pos rfl, toNat_succ h]

lemma selfDestruct_nonce (w : World) (a b : Address) :
    (w.selfDestruct a).nonce b = w.nonce b := by
  rw [World.nonce, selfDestruct_view]
  split <;> rfl

lemma settle_nonce (w : World) (a : Address) :
    w.settle.nonce a = if w.isMarked a then 0 else w.nonce a := by
  rw [World.nonce, settle_view]
  split <;> rfl

lemma createAccount_code {w : World} {a : Address} (hcode : w.code a = #[]) (b : Address) :
    (w.createAccount a).code b = w.code b :=
  same_of_replaced Account.code (createAccount_account? w a) hcode.symm b

lemma setBalance_code (w : World) (a b : Address) (balance : Word) :
    (w.setBalance a balance).code b = w.code b :=
  same_of_replaced Account.code (fun b => setBalance_account? w a b balance) rfl b

lemma setNonce_code (w : World) (a b : Address) (nonce : UInt64) :
    (w.setNonce a nonce).code b = w.code b :=
  same_of_replaced Account.code (fun b => setNonce_account? w a b nonce) rfl b

lemma setStorage_code (w : World) (a b : Address) (slot value : Word) :
    (w.setStorage a slot value).code b = w.code b :=
  same_of_replaced Account.code (fun b => setStorage_account? w a b slot value) rfl b

lemma setCode_code (w : World) (a b : Address) (code : Bytes) :
    (w.setCode a code).code b = if a = b then code else w.code b := by
  rw [World.code, view_of_replaced fun b => setCode_account? w a b code]
  split <;> rfl

lemma selfDestruct_code (w : World) (a b : Address) :
    (w.selfDestruct a).code b = w.code b := by
  rw [World.code, selfDestruct_view]
  split <;> rfl

end ContractMachine.Proofs
