import ContractMachine.Action

/-!
# Linear memory

A byte string whose length is a multiple of 32 and never shrinks. Reads past the end give zeros;
writes have to stay inside, so memory grows only where growth was asked for.
-/

namespace ContractMachine

structure Memory where
  data : Bytes
  /-- The greatest length. -/
  limit : Nat
  deriving DecidableEq

namespace Memory

def empty (limit : Nat) : Memory := ⟨#[], limit⟩

def size (m : Memory) : Nat := m.data.size

/-- Grows to cover the first `stop` bytes, rounded up to whole words. -/
def resize (stop : Nat) : Action Memory Unit := fun m =>
  if stop ≤ m.data.size then (.ok (), m)
  else
    match Quantity.alignUp? stop with
    | none => (.error .invalidRange, m)
    | some newSize =>
      if m.limit < newSize then (.error .outOfGas, m)
      else
        match m with
        | ⟨data, limit⟩ => (.ok (), ⟨data ++ Array.replicate (newSize - data.size) 0, limit⟩)

theorem resize_eq (stop : Nat) (m : Memory) :
    resize stop m =
      if stop ≤ m.data.size then (.ok (), m)
      else if Quantity.limit ≤ Quantity.wordAlign stop then (.error .invalidRange, m)
      else if m.limit < Quantity.wordAlign stop then (.error .outOfGas, m)
      else (.ok (),
        ⟨m.data ++ Array.replicate (Quantity.wordAlign stop - m.data.size) 0, m.limit⟩) := by
  unfold resize
  rw [Quantity.alignUp?_eq]
  by_cases hfits : Quantity.wordAlign stop < Quantity.limit
  · rw [if_pos hfits, if_neg (Nat.not_le_of_lt hfits)]
  · rw [if_neg hfits, if_pos (Nat.le_of_not_lt hfits)]

/-- Grows to cover `length` bytes from `offset` on; no bytes need no growth. -/
def resizeRegion (offset length : Word) : Action Memory Unit := fun m =>
  if length = 0 then (.ok (), m)
  else
    let stop := offset.toNat + length.toNat
    if Quantity.limit ≤ stop then (.error .invalidRange, m) else resize stop m

/-- The `size` bytes from `offset` on. -/
def read (m : Memory) (offset size : Nat) : Bytes := m.data.window offset size

/-- Overwrites `count` bytes from `start` on, byte `i` of them by `source i`. -/
@[specialize]
def overwrite (source : Nat → UInt8) (start : Nat) : (count : Nat) → Bytes → Bytes
  | 0, data => data
  | count + 1, data =>
    overwrite source start count (data.setIfInBounds (start + count) (source count))

/-- Writes `count` bytes from `offset` on, byte `i` of them being `source i`. -/
@[inline]
def fill (offset count : Nat) (source : Nat → UInt8) : Action Memory Unit := fun m =>
  if count = 0 then (.ok (), m)
  else if m.data.size < offset + count then (.error .invalidRange, m)
  else
    match m with
    | ⟨data, limit⟩ => (.ok (), ⟨overwrite source offset count data, limit⟩)

/-- Writes `count` bytes of `value` at `offset`, with zeros where `value` is too short. -/
def write (offset : Nat) (value : Bytes) (count : Nat) : Action Memory Unit :=
  fill offset count value.at0

/-- Writes a word at `offset`. -/
def writeWord (offset : Nat) (w : Word) : Action Memory Unit := fill offset 32 w.byteAt

/-- Copies `length` bytes of `source`, from `sourceOffset` on and with zeros past its end. -/
def copy (offset sourceOffset length : Word) (source : Bytes) : Action Memory Unit := fun m =>
  if length = 0 then (.ok (), m)
  else
    match offset.toQuantity?, length.toQuantity? with
    | some start, some count =>
      let first := sourceOffset.toNat
      fill start count (fun i => source.at0 (first + i)) m
    | _, _ => (.error .outOfGas, m)

end Memory

end ContractMachine
