import ContractMachine.Proofs.MachineLayout
import ContractMachine.Proofs.MemoryNeeds

/-!
# What instructions make of their operands

Each action on the machine is given in closed form, for a machine with its operands on top of the
stack, with room for its result, and with memory for the windows that it touches.
-/

namespace ContractMachine.Proofs

/-- The machine with other items on its stack. -/
def withItems (items : List Word) (m : Machine) : Machine :=
  { m with stack := ⟨items, m.stack.limit⟩ }

/-- The machine after `count` bytes from `start` on have been overwritten. -/
def written (start count : Nat) (source : Nat → UInt8) (m : Machine) : Machine :=
  { m with
    memory := ⟨Memory.overwrite source start count m.memory.data, m.memory.limit⟩ }

variable {m : Machine} {a b c d e f g w : Word} {items rest : List Word}

lemma pop_eq : Machine.pop (withItems (w :: rest) m) = (.ok w, withItems rest m) := rfl

lemma push_eq (hroom : rest.length < m.stack.limit) :
    Machine.push w (withItems rest m) = (.ok (), withItems (w :: rest) m) := by
  have hfits : Stack.push w ⟨rest, m.stack.limit⟩ = (.ok (), ⟨w :: rest, m.stack.limit⟩) :=
    if_neg (Nat.not_lt_of_le hroom)
  simp only [Machine.push, Machine.onStack, withItems, hfits]

lemma unary_eq (op : UnaryOp) (hroom : rest.length < m.stack.limit) :
    Machine.unary op (withItems (a :: rest) m) = (.ok (), withItems (op.apply a :: rest) m) := by
  simp only [Machine.unary, Action.bind_apply, pop_eq, push_eq hroom]

lemma binary_eq (op : BinaryOp) (hroom : rest.length < m.stack.limit) :
    Machine.binary op (withItems (a :: b :: rest) m) =
      (.ok (), withItems (op.apply a b :: rest) m) := by
  simp only [Machine.binary, Action.bind_apply, pop_eq, push_eq hroom]

lemma ternary_eq (op : TernaryOp) (hroom : rest.length < m.stack.limit) :
    Machine.ternary op (withItems (a :: b :: c :: rest) m) =
      (.ok (), withItems (op.apply a b c :: rest) m) := by
  simp only [Machine.ternary, Action.bind_apply, pop_eq, push_eq hroom]

lemma lookup_eq (find : Word → Word) (hroom : rest.length < m.stack.limit) :
    Machine.lookup find (withItems (a :: rest) m) = (.ok (), withItems (find a :: rest) m) := by
  simp only [Machine.lookup, Action.bind_apply, pop_eq, push_eq hroom]

lemma callDataLoad_eq (hroom : rest.length < m.stack.limit) :
    Machine.callDataLoad (withItems (a :: rest) m) =
      (.ok (), withItems (Word.ofBytes (m.input.window a.toNat 32) :: rest) m) := by
  simp only [Machine.callDataLoad, Action.bind_apply, Action.read, pop_eq, push_eq hroom]
  rfl

lemma discard_eq : Machine.discard (withItems (a :: rest) m) = (.ok (), withItems rest m) := rfl

lemma pushImmediate_eq (width : Nat) (hroom : rest.length < m.stack.limit) :
    Machine.pushImmediate width (withItems rest m) =
      (.ok (), withItems (Word.ofBytes (m.code.window (m.position + 1) width) :: rest) m) := by
  simp only [Machine.pushImmediate, Action.bind_apply, Action.read, push_eq hroom]
  rfl

lemma peek_eq (n : Nat) (hn : items[n]? = some w) :
    Action.query (fun m => m.stack.peek n) (withItems items m) = (.ok w, withItems items m) := by
  have hpeek : Stack.peek ⟨items, m.stack.limit⟩ n = .ok w := by
    simp only [Stack.peek, hn]
  simp only [Action.query, withItems, hpeek]

lemma dup_eq {n : Nat} (hn : items[n - 1]? = some w) (hroom : items.length < m.stack.limit) :
    Machine.dup n (withItems items m) = (.ok (), withItems (w :: items) m) := by
  simp only [Machine.dup, Action.bind_apply, peek_eq (n - 1) hn, push_eq hroom]

lemma set_eq (n : Nat) (hn : n < items.length) :
    Machine.onStack (Stack.set n w) (withItems items m) =
      (.ok (), withItems (items.set n w) m) := by
  have hset : Stack.set n w ⟨items, m.stack.limit⟩ = (.ok (), ⟨items.set n w, m.stack.limit⟩) :=
    if_pos hn
  simp only [Machine.onStack, withItems, hset]

lemma swap_eq {n : Nat} (htop : items[0]? = some a) (hother : items[n]? = some b) :
    Machine.swap n (withItems items m) =
      (.ok (), withItems ((items.set 0 b).set n a) m) := by
  have hfirst : 0 < items.length := (List.getElem?_eq_some_iff.mp htop).1
  have hsecond : n < (items.set 0 b).length := by
    rw [List.length_set]
    exact (List.getElem?_eq_some_iff.mp hother).1
  simp only [Machine.swap, Action.bind_apply, peek_eq 0 htop, peek_eq n hother, set_eq 0 hfirst,
    set_eq n hsecond]

lemma takeStore_eq :
    Machine.takeStore (withItems (a :: b :: rest) m) = (.ok (a, b), withItems rest m) := rfl

lemma takeItems_eq (taken : List Word) :
    Machine.takeItems taken.length (withItems (taken ++ rest) m) =
      (.ok taken, withItems rest m) := by
  induction taken with
  | nil => rfl
  | cons item taken ih =>
    simp only [List.length_cons, List.cons_append, Machine.takeItems, Action.bind_apply, pop_eq, ih,
      Action.pure_apply]

/-- Offset and length of a window that is not empty are quantities. -/
lemma RegionFits.quantities (hfits : RegionFits a b) (hempty : b ≠ 0) :
    a.toNat < Quantity.limit ∧ b.toNat < Quantity.limit := by
  have hsum := hfits.resolve_left hempty
  exact ⟨Nat.lt_of_le_of_lt (Nat.le_add_right _ _) hsum,
    Nat.lt_of_le_of_lt (Nat.le_add_left _ _) hsum⟩

lemma quantity_eq {fault : Fault} (h : w.toNat < Quantity.limit) :
    Machine.quantity w fault m = (.ok w.toNat, m) := by
  simp only [Machine.quantity, Word.toQuantity?, if_pos h, Action.pure_apply]

/-- The bytes of a window, none of which need an offset if there are none. -/
lemma region_eq (hfits : RegionFits a b) :
    Machine.region a b m = (.ok (m.memory.read a.toNat b.toNat), m) := by
  unfold Machine.region
  by_cases hempty : b = 0
  · subst hempty
    rfl
  · obtain ⟨hoffset, hlength⟩ := hfits.quantities hempty
    rw [if_neg hempty]
    simp only [Action.bind_apply, quantity_eq hoffset, quantity_eq hlength, Action.read]

lemma sha3_eq (hfits : RegionFits a b) (hroom : rest.length < m.stack.limit) :
    Machine.sha3 (withItems (a :: b :: rest) m) =
      (.ok (), withItems (Keccak.digest (m.memory.read a.toNat b.toNat) :: rest) m) := by
  simp only [Machine.sha3, Action.bind_apply, pop_eq, region_eq hfits, push_eq hroom]
  rfl

lemma mload_eq (hfits : RegionFits a 32) (hroom : rest.length < m.stack.limit) :
    Machine.mload (withItems (a :: rest) m) =
      (.ok (), withItems (Word.ofBytes (m.memory.read a.toNat 32) :: rest) m) := by
  have hoffset := (hfits.quantities (by decide)).1
  simp only [Machine.mload, Action.bind_apply, pop_eq, quantity_eq hoffset, Action.read,
    push_eq hroom]
  rfl

lemma takeLog_eq (taken : List Word) (hfits : RegionFits a b) :
    Machine.takeLog taken.length (withItems (a :: b :: (taken ++ rest)) m) =
      (.ok (taken, m.memory.read a.toNat b.toNat), withItems rest m) := by
  simp only [Machine.takeLog, Action.bind_apply, pop_eq, region_eq hfits, takeItems_eq,
    Action.pure_apply]
  rfl

lemma takeCreation_eq (hfits : RegionFits b c) :
    Machine.takeCreation (withItems (a :: b :: c :: rest) m) =
      (.ok (a, m.memory.read b.toNat c.toNat), withItems rest m) := by
  simp only [Machine.takeCreation, Action.bind_apply, pop_eq, region_eq hfits, Action.pure_apply]
  rfl

/-- The operands of a call, with the windows that they describe. -/
structure CallOperands where
  gas : Word
  target : Word
  value : Word
  input : Window
  output : Window

/-- The operands as they lie on the stack, the topmost first. -/
def CallOperands.stacked (o : CallOperands) : CallScheme → List Word
  | .call | .callCode => [o.gas, o.target, o.value, o.input.offset, o.input.length,
      o.output.offset, o.output.length]
  | .delegateCall => [o.gas, o.target, o.input.offset, o.input.length, o.output.offset,
      o.output.length]

lemma CallOperands.stacked_length (o : CallOperands) (scheme : CallScheme) :
    (o.stacked scheme).length = (Operation.standard (.call scheme)).pop := by
  cases scheme <;> rfl

/-- What the call asks for in a machine with this memory. -/
def CallOperands.request (o : CallOperands) (memory : Memory) : Machine.CallRequest :=
  ⟨o.gas, o.target.toAddress, o.value, memory.read o.input.offset.toNat o.input.length.toNat,
    o.output.offset, o.output.length⟩

lemma takeCall_eq {scheme : CallScheme} (hscheme : Machine.takeCallValue scheme = Machine.pop)
    (hfits : RegionFits d e) :
    Machine.takeCall scheme (withItems (a :: b :: c :: d :: e :: f :: g :: rest) m) =
      (.ok (CallOperands.request ⟨a, b, c, ⟨d, e⟩, ⟨f, g⟩⟩ m.memory), withItems rest m) := by
  simp only [Machine.takeCall, hscheme, Action.bind_apply, pop_eq, region_eq hfits,
    Action.pure_apply]
  rfl

lemma takeDelegateCall_eq (hfits : RegionFits c d) :
    Machine.takeCall .delegateCall (withItems (a :: b :: c :: d :: e :: f :: rest) m) =
      (.ok (CallOperands.request ⟨a, b, 0, ⟨c, d⟩, ⟨e, f⟩⟩ m.memory), withItems rest m) := by
  simp only [Machine.takeCall, Machine.takeCallValue, Action.bind_apply, pop_eq, region_eq hfits,
    Action.pure_apply]
  rfl

/-- Whatever its scheme, a call finds its operands if there are as many items as it takes. -/
lemma takeCall_items {scheme : CallScheme}
    (hitems : (Operation.standard (.call scheme)).pop ≤ items.length) :
    ∃ (o : CallOperands) (below : List Word), items = o.stacked scheme ++ below ∧
      windows (.call scheme) items = [o.input, o.output] ∧
      ∀ m, RegionFits o.input.offset o.input.length →
        Machine.takeCall scheme (withItems items m) =
          (.ok (o.request m.memory), withItems below m) := by
  cases scheme with
  | call | callCode =>
    obtain ⟨a, b, c, tail, rfl, htail⟩ := exists_three (n := 4) hitems
    obtain ⟨d, e, f, g, rest, rfl, -⟩ := exists_four (n := 0) htail
    exact ⟨⟨a, b, c, ⟨d, e⟩, ⟨f, g⟩⟩, rest, rfl, rfl, fun m hfits => takeCall_eq rfl hfits⟩
  | delegateCall =>
    obtain ⟨a, b, tail, rfl, htail⟩ := exists_two (n := 4) hitems
    obtain ⟨c, d, e, f, rest, rfl, -⟩ := exists_four (n := 0) htail
    exact ⟨⟨a, b, 0, ⟨c, d⟩, ⟨e, f⟩⟩, rest, rfl, rfl, fun m hfits => takeDelegateCall_eq hfits⟩

/-- A call that is supplied finds its operands, room for what it pushes, and both windows. -/
lemma Supplied.call {scheme : CallScheme} (h : Supplied (.call scheme) (withItems items m)) :
    ∃ (o : CallOperands) (below : List Word), items = o.stacked scheme ++ below ∧
      below.length < m.stack.limit ∧ windows (.call scheme) items = [o.input, o.output] ∧
      o.input.Covered m.memory ∧ o.output.Covered m.memory ∧
      ∀ m', Machine.takeCall scheme (withItems items m') =
        (.ok (o.request m'.memory), withItems below m') := by
  have hoperands : (Operation.standard (.call scheme)).pop ≤ items.length := h.operands
  have hheight : items.length - (Operation.standard (.call scheme)).pop +
      (Operation.standard (.call scheme)).push ≤ m.stack.limit := h.room
  have hpush : (Operation.standard (.call scheme)).push = 1 := by cases scheme <;> rfl
  obtain ⟨o, below, rfl, hwindows, htake⟩ := takeCall_items hoperands
  have hcovered : ∀ w ∈ [o.input, o.output], w.Covered m.memory := by
    rw [← hwindows]
    exact h.covered
  have hinput := hcovered o.input List.mem_cons_self
  have houtput := hcovered o.output (List.mem_cons_of_mem _ List.mem_cons_self)
  rw [List.length_append, o.stacked_length, hpush] at hheight
  exact ⟨o, below, rfl, by omega, hwindows, hinput, houtput, fun m' => htake m' hinput.fits⟩

/-- The region that a frame returns with two words as its operands. -/
def returning (offset length : Word) (m : Machine) : Machine :=
  if length = 0 then m.setReturn 0 0
  else m.setReturn offset.toNat (offset.toNat + length.toNat)

lemma ret_eq (hfits : RegionFits a b) :
    Machine.ret (withItems (a :: b :: rest) m) = (.ok (), returning a b (withItems rest m)) := by
  unfold returning
  simp only [Machine.ret, Action.bind_apply, pop_eq]
  by_cases hempty : b = 0
  · rw [if_pos hempty, if_pos hempty]
    rfl
  · obtain ⟨hoffset, hlength⟩ := hfits.quantities hempty
    rw [if_neg hempty, if_neg hempty]
    simp only [Action.bind_apply, quantity_eq hoffset, quantity_eq hlength]
    rfl

lemma fill_eq {start count : Nat} (source : Nat → UInt8)
    (hinside : count = 0 ∨ start + count ≤ m.memory.size) :
    Machine.onMemory (Memory.fill start count source) m =
      (.ok (), written start count source m) := by
  by_cases hnone : count = 0
  · subst hnone
    rfl
  · obtain ⟨code, input, position, first, last, jumps, ⟨data, limit⟩, stack⟩ := m
    have hfits : ¬ data.size < start + count :=
      Nat.not_lt_of_le (hinside.resolve_left hnone)
    simp only [Machine.onMemory, Memory.fill, if_neg hnone, if_neg hfits]
    rfl

lemma copyMemory_eq {source : Bytes} (hcovered : Window.Covered ⟨a, c⟩ m.memory) :
    Machine.onMemory (Memory.copy a b c source) m =
      (.ok (), written a.toNat c.toNat (fun i => source.at0 (b.toNat + i)) m) := by
  by_cases hempty : c = 0
  · subst hempty
    rfl
  · obtain ⟨hoffset, hlength⟩ := hcovered.fits.quantities hempty
    rw [← fill_eq _ (.inr (hcovered.inside.resolve_left hempty))]
    simp only [Machine.onMemory, Memory.copy, if_neg hempty, Word.toQuantity?, if_pos hoffset,
      if_pos hlength]

lemma copy_eq (source : Machine → Bytes) (hcovered : Window.Covered ⟨a, c⟩ m.memory) :
    Machine.copy source (withItems (a :: b :: c :: rest) m) =
      (.ok (), written a.toNat c.toNat (fun i => (source (withItems rest m)).at0 (b.toNat + i))
        (withItems rest m)) := by
  simp only [Machine.copy, Action.bind_apply, pop_eq, Action.read,
    copyMemory_eq (m := withItems rest m) hcovered]

lemma extCodeCopy_eq (code : Address → Bytes) (hcovered : Window.Covered ⟨b, d⟩ m.memory) :
    Machine.extCodeCopy code (withItems (a :: b :: c :: d :: rest) m) =
      (.ok (), written b.toNat d.toNat (fun i => (code a.toAddress).at0 (c.toNat + i))
        (withItems rest m)) := by
  simp only [Machine.extCodeCopy, Action.bind_apply, pop_eq, copy_eq _ hcovered]

lemma mstore_eq (hcovered : Window.Covered ⟨a, 32⟩ m.memory) :
    Machine.mstore (withItems (a :: b :: rest) m) =
      (.ok (), written a.toNat 32 b.byteAt (withItems rest m)) := by
  have hlength : (32 : Word) ≠ 0 := by decide
  have hoffset := (hcovered.fits.quantities hlength).1
  have hinside : 32 = 0 ∨ a.toNat + 32 ≤ (withItems rest m).memory.size :=
    .inr (hcovered.inside.resolve_left hlength)
  simp only [Machine.mstore, Action.bind_apply, pop_eq, quantity_eq hoffset, Memory.writeWord,
    fill_eq b.byteAt hinside]

lemma mstore8_eq (hcovered : Window.Covered ⟨a, 1⟩ m.memory) :
    Machine.mstore8 (withItems (a :: b :: rest) m) =
      (.ok (), written a.toNat 1 (fun _ => b.byteAt 31) (withItems rest m)) := by
  have hlength : (1 : Word) ≠ 0 := by decide
  have hoffset := (hcovered.fits.quantities hlength).1
  have hinside : 1 = 0 ∨ a.toNat + 1 ≤ (withItems rest m).memory.size :=
    .inr (hcovered.inside.resolve_left hlength)
  simp only [Machine.mstore8, Action.bind_apply, pop_eq, quantity_eq hoffset, fill_eq _ hinside]

/-- The bytes that a call hands back: no more than it gives, and than there is room for. -/
def returned (request : Machine.CallRequest) (exit : Exit) (output : Bytes) : Nat :=
  if exit.isSuccess then min request.outLength.toNat output.size else 0

lemma returned_le (request : Machine.CallRequest) (exit : Exit) (output : Bytes) :
    returned request exit output ≤ request.outLength.toNat := by
  unfold returned
  by_cases hsuccess : exit.isSuccess = true
  · rw [if_pos hsuccess]
    exact Nat.min_le_left _ _
  · rw [if_neg hsuccess]
    exact Nat.zero_le _

lemma putOutput_eq {request : Machine.CallRequest} (output : Bytes)
    (hcovered : Window.Covered ⟨request.outOffset, request.outLength⟩ m.memory) :
    Machine.putOutput request output m =
      (.ok (), written request.outOffset.toNat (min request.outLength.toNat output.size) output.at0
        m) := by
  unfold Machine.putOutput
  by_cases hempty : request.outLength = 0
  · have hnone : request.outLength.toNat = 0 := congrArg BitVec.toNat hempty
    rw [if_pos hempty, hnone, Nat.zero_min]
    rfl
  · obtain ⟨hoffset, hlength⟩ := hcovered.fits.quantities hempty
    have hinside := hcovered.inside.resolve_left hempty
    have hcount : request.outOffset.toNat + min request.outLength.toNat output.size ≤
        m.memory.size :=
      Nat.le_trans (Nat.add_le_add_left (Nat.min_le_left _ _) _) hinside
    rw [if_neg hempty]
    simp only [Action.bind_apply, quantity_eq hoffset, quantity_eq hlength, Memory.write,
      fill_eq output.at0 (.inr hcount)]

/-- However the frame of a call ended, the call pushes whether it went well. -/
lemma finishCall_eq (request : Machine.CallRequest) (exit : Exit) (output : Bytes)
    (hcovered : Window.Covered ⟨request.outOffset, request.outLength⟩ m.memory)
    (hroom : rest.length < m.stack.limit) :
    Machine.finishCall request exit output (withItems rest m) =
      (.ok (), written request.outOffset.toNat (returned request exit output) output.at0
        (withItems (Word.ofBool exit.isSuccess :: rest) m)) := by
  unfold Machine.finishCall returned
  cases hsuccess : exit.isSuccess with
  | false =>
    simp only [Bool.false_eq_true, if_false]
    exact push_eq hroom
  | true =>
    simp only [if_true, Action.bind_apply, putOutput_eq (m := withItems rest m) output hcovered]
    exact push_eq (m := written _ _ _ m) hroom

/-- What a creation pushes: the address of the contract, and zero where there is none. -/
def foundedWord (exit : Exit) (created : Option Address) : Word :=
  if exit.isSuccess || exit == .fault .codeStoreOutOfGas then
    (created.map Address.toWord).getD 0
  else 0

lemma finishCreation_eq (exit : Exit) (created : Option Address)
    (hroom : rest.length < m.stack.limit) :
    Machine.finishCreation exit created (withItems rest m) =
      (.ok (), withItems (foundedWord exit created :: rest) m) := by
  unfold Machine.finishCreation foundedWord
  by_cases hmade : (exit.isSuccess || exit == .fault .codeStoreOutOfGas) = true
  · rw [if_pos hmade, if_pos hmade]
    exact push_eq hroom
  · rw [if_neg hmade, if_neg hmade]
    exact push_eq hroom

end ContractMachine.Proofs
