import ContractMachine.Proofs.MemoryAccesses
import ContractMachine.Proofs.WordBytes

/-!
# Words of the input

A frame can push a word of its input at once, or copy it to memory and load it from there. Both
give the word whose bytes are those of the input, with zeros past its end. A word that is stored is
loaded as it was.
-/

namespace ContractMachine.Proofs

variable {runner : Runner} {context : Context} {m : Machine} {ex : Executor}
  {offset index : Word} {rest : List Word}

lemma read_written {start count : Nat} (source : Nat → UInt8)
    (h : start + count ≤ m.memory.size) :
    (written start count source m).memory.read start count =
      Array.ofFn fun k : Fin count => source k := by
  unfold Memory.read Bytes.window
  congr 1
  funext k
  have hinside : start + k < m.memory.data.size :=
    Nat.lt_of_lt_of_le (Nat.add_lt_add_left k.isLt start) h
  show (Memory.overwrite source start count m.memory.data).at0 (start + k) = source k
  rw [Bytes.at0, Array.getD_eq_getD_getElem?, getElem?_overwrite,
    if_pos ⟨Nat.le_add_right _ _, Nat.add_lt_add_left k.isLt _, hinside⟩, Option.getD_some,
    Nat.add_sub_cancel_left]

/-- The word that a window of 32 bytes spells has the bytes of the data, and zeros past their
end. -/
lemma byteAt_window (data : Bytes) (i : Nat) :
    ∀ k < 32, (Word.ofBytes (data.window i 32)).byteAt k = data[i + k]?.getD 0 := by
  intro k hk
  rw [byteAt_ofBytes (Bytes.size_window data i 32) hk, Bytes.at0, Bytes.window,
    Array.getD_eq_getD_getElem?, Array.getElem?_ofFn, dif_pos hk, Option.getD_some, Bytes.at0,
    Array.getD_eq_getD_getElem?]

lemma mload_written (source : Nat → UInt8) (hcovered : Window.Covered ⟨offset, 32⟩ m.memory)
    (hroom : rest.length < m.stack.limit) :
    perform runner .mload context
        (withItems (offset :: rest) (written offset.toNat 32 source m)) ex =
      some (.proceed,
        withItems (Word.ofBytes (Array.ofFn fun k : Fin 32 => source k) :: rest)
          (written offset.toNat 32 source m), ex) := by
  have hlength : (32 : Word) ≠ 0 := by decide
  have hinside : offset.toNat + 32 ≤ m.memory.size := hcovered.inside.resolve_left hlength
  have hload := mload_eq (m := written offset.toNat 32 source m) hcovered.fits hroom
  rw [read_written source hinside] at hload
  simp only [perform, proceed, hload]

/-- The word that is pushed from an offset of the input is the one that is loaded from a place in
memory once it has been copied there: its bytes are those of the input, and zero past its end. A
word that is stored at the place is loaded again. -/
theorem input_words_agree (hcovered : Window.Covered ⟨offset, 32⟩ m.memory)
    (hroom : rest.length < m.stack.limit) (runner : Runner) (context : Context) (ex : Executor)
    (index : Word) :
    (∃ w : Word, (∀ k < 32, w.byteAt k = m.input[index.toNat + k]?.getD 0) ∧
      perform runner .callDataLoad context (withItems (index :: rest) m) ex =
        some (.proceed, withItems (w :: rest) m, ex) ∧
      ∃ copied : Machine,
        perform runner .callDataCopy context (withItems (offset :: index :: 32 :: rest) m) ex =
          some (.proceed, withItems rest copied, ex) ∧
        perform runner .mload context (withItems (offset :: rest) copied) ex =
          some (.proceed, withItems (w :: rest) copied, ex)) ∧
    ∀ value : Word, ∃ stored : Machine,
      perform runner .mstore context (withItems (offset :: value :: rest) m) ex =
        some (.proceed, withItems rest stored, ex) ∧
      perform runner .mload context (withItems (offset :: rest) stored) ex =
        some (.proceed, withItems (value :: rest) stored, ex) := by
  constructor
  · refine ⟨Word.ofBytes (m.input.window index.toNat 32), byteAt_window _ _, ?_,
      written offset.toNat 32 (fun i => m.input.at0 (index.toNat + i)) m, ?_,
      mload_written _ hcovered hroom⟩
    · simp only [perform, proceed, callDataLoad_eq hroom]
    · have hcopy : Machine.copy Machine.input (withItems (offset :: index :: 32 :: rest) m) = _ :=
        copy_eq Machine.input hcovered
      simp only [perform, proceed, hcopy]
      rfl
  · intro value
    refine ⟨written offset.toNat 32 value.byteAt m, ?_, ?_⟩
    · simp only [perform, proceed, mstore_eq hcovered]
      rfl
    · rw [mload_written value.byteAt hcovered hroom, ofBytes_ofFn]

/-- A frame with three bytes of input and two words of memory. -/
def shortInputMachine : Machine :=
  { Machine.start #[] #[7, 8, 9] 2 4096 with memory := ⟨Array.replicate 64 0xff, 4096⟩ }

def shortInputExecutor : Executor := Executor.new (.ofAccounts ∅) .homestead .zero

/-- A word with one byte inside the input is loaded from a place across two words of memory. -/
theorem input_words_agree_lastByte :
    ∃ (w : Word) (copied : Machine), w.byteAt 0 = 9 ∧ w.byteAt 1 = 0 ∧
      perform (run 0) .callDataLoad ⟨0xa, 0xb, 0⟩ (withItems [2, 5] shortInputMachine)
          shortInputExecutor =
        some (.proceed, withItems [w, 5] shortInputMachine, shortInputExecutor) ∧
      perform (run 0) .callDataCopy ⟨0xa, 0xb, 0⟩ (withItems [17, 2, 32, 5] shortInputMachine)
          shortInputExecutor =
        some (.proceed, withItems [5] copied, shortInputExecutor) ∧
      perform (run 0) .mload ⟨0xa, 0xb, 0⟩ (withItems [17, 5] copied) shortInputExecutor =
        some (.proceed, withItems [w, 5] copied, shortInputExecutor) := by
  have hcovered : Window.Covered ⟨17, 32⟩ shortInputMachine.memory :=
    ⟨.inr (by decide), .inr (by decide)⟩
  have hroom : [(5 : Word)].length < shortInputMachine.stack.limit := by decide
  obtain ⟨⟨w, hbytes, hpushed, copied, hcopied, hloaded⟩, -⟩ :=
    input_words_agree hcovered hroom (run 0) ⟨0xa, 0xb, 0⟩ shortInputExecutor 2
  exact ⟨w, copied, hbytes 0 (by decide), hbytes 1 (by decide), hpushed, hcopied, hloaded⟩

end ContractMachine.Proofs
