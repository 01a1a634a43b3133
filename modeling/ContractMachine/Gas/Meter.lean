import ContractMachine.Gas.Price

/-!
# The gas meter of a frame

A charge is taken as a whole or not at all. A meter that has failed has used up its limit, owes no
refund and takes no entry any more.
-/

namespace ContractMachine

/-- What a meter that has not failed has counted. -/
structure Ledger where
  /-- Paid for all memory so far. -/
  memoryGas : Nat
  /-- Paid for everything else. -/
  usedGas : Nat
  refundedGas : Int
  deriving DecidableEq

structure Meter where
  limit : Nat
  /-- None once the meter has failed. -/
  ledger : Option Ledger
  deriving DecidableEq

/-- What a meter can be asked to record. -/
inductive Entry
  | cost (amount : Nat)
  | refund (amount : Int)
  /-- Gas that a nested frame has left over. -/
  | stipend (amount : Nat)
  /-- The code of `length` bytes that a creation leaves behind. -/
  | deposit (length : Nat)
  /-- The price of an instruction and of memory up to `memoryEnd` bytes. -/
  | priced (price : Price) (memoryEnd : Option Nat)

/-- The amounts of a priced entry. -/
structure Bill where
  cost : Nat
  /-- The price of all memory, the part paid already included. -/
  memoryGas : Nat
  refund : Int

namespace Meter

def new (limit : Nat) : Meter := ⟨limit, some ⟨0, 0, 0⟩⟩

/-- Gas that can still be spent. -/
def gas (m : Meter) : Nat :=
  match m.ledger with
  | some l => m.limit - l.usedGas - l.memoryGas
  | none => 0

def totalUsedGas (m : Meter) : Nat :=
  match m.ledger with
  | some l => l.usedGas + l.memoryGas
  | none => m.limit

def refundedGas (m : Meter) : Int :=
  match m.ledger with
  | some l => l.refundedGas
  | none => 0

def hasFailed (m : Meter) : Bool := m.ledger.isNone

/-- Uses up what is left. -/
def fail (m : Meter) : Meter := { m with ledger := none }

/-- The price of memory up to `memoryEnd` bytes, at least what is paid already. -/
def memoryBill (paid : Nat) : Option Nat → Except Fault Nat
  | none => .ok paid
  | some memoryEnd => do
    let total ← Gas.memoryCost (Gas.words memoryEnd)
    pure (max paid total)

/-- The amounts of a priced entry over `paid` gas for memory. -/
def bill (rules : Rules) (paid : Nat) (price : Price) (memoryEnd : Option Nat) :
    Except Fault Bill := do
  let memoryGas ← memoryBill paid memoryEnd
  let cost ← price.cost rules
  pure ⟨cost, memoryGas, price.refund rules⟩

/-- Takes an amount from the gas that is left. -/
def take (amount : Nat) : Action Meter Unit := fun m =>
  match m.ledger with
  | none => (.error .outOfGas, m)
  | some l =>
    if m.gas < amount then (.error .outOfGas, m)
    else (.ok (), ⟨m.limit, some { l with usedGas := l.usedGas + amount }⟩)

/-- Pays a priced entry if its amounts and the gas it hands over are there. -/
def pay (rules : Rules) (price : Price) (memoryEnd : Option Nat) : Action Meter Unit := fun m =>
  match m.ledger with
  | none => (.error .outOfGas, m)
  | some l =>
    match bill rules l.memoryGas price memoryEnd with
    | .error e => (.error e, m)
    | .ok b =>
      let total := b.cost + (b.memoryGas - l.memoryGas)
      if Quantity.limit ≤ total then (.error .gasUintOverflow, m)
      else if m.gas < total then (.error .outOfGas, m)
      else if m.gas - total < price.forwarded then (.error .outOfGas, m)
      else
        (.ok (), ⟨m.limit, some
          ⟨b.memoryGas, l.usedGas + b.cost,
            Quantity.signedSaturatingAdd l.refundedGas b.refund⟩⟩)

/-- Records an entry. -/
def record (rules : Rules) : Entry → Action Meter Unit
  | .cost amount => take amount
  | .deposit length =>
    if length * Gas.codeByte < Quantity.limit then take (length * Gas.codeByte)
    else Action.fault .outOfGas
  | .refund amount => fun m =>
    match m.ledger with
    | none => (.error .outOfGas, m)
    | some l =>
      (.ok (), ⟨m.limit, some
        { l with refundedGas := Quantity.signedSaturatingAdd l.refundedGas amount }⟩)
  | .stipend amount => fun m =>
    match m.ledger with
    | none => (.error .outOfGas, m)
    | some l => (.ok (), ⟨m.limit, some { l with usedGas := l.usedGas - amount }⟩)
  | .priced price memoryEnd => pay rules price memoryEnd

/-- Records entries up to the first that faults. -/
def recordAll (rules : Rules) : List Entry → Action Meter Unit
  | [] => pure ()
  | entry :: rest => do
    record rules entry
    recordAll rules rest

end Meter

end ContractMachine
