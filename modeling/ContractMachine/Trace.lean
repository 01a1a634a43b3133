import ContractMachine.Context
import ContractMachine.Gas.Meter
import ContractMachine.Memory
import ContractMachine.Stack

/-!
# Traces

The events of an execution, in the order in which they happen, as far as somebody listens to their
kind. Charges are announced before they are taken.
-/

namespace ContractMachine

/-- The kinds of events one can listen to. -/
inductive Listener
  | gas
  | runtime
  | executor
  deriving DecidableEq

/-- The state of a meter, none once it has failed. -/
structure MeterSnapshot where
  limit : Nat
  ledger : Ledger
  deriving DecidableEq

def MeterSnapshot.gas (s : MeterSnapshot) : Nat :=
  s.limit - s.ledger.usedGas - s.ledger.memoryGas

def Meter.snapshot (m : Meter) : Option MeterSnapshot := m.ledger.map fun l => ⟨m.limit, l⟩

inductive Event
  | recordCost (amount : Nat) (before : Option MeterSnapshot)
  | recordRefund (amount : Int) (before : Option MeterSnapshot)
  | recordStipend (amount : Nat) (before : Option MeterSnapshot)
  | recordPriced (cost memoryGas : Nat) (refund : Int) (before : Option MeterSnapshot)
  | step (address : Address) (op : Opcode) (position : Nat) (stack : Stack) (memory : Memory)
  /-- No exit if the frame goes on. -/
  | stepResult (exit : Option Exit) (output : Bytes)
  | sload (address : Address) (slot value : Word)
  | sstore (address : Address) (slot value : Word)
  | transactCall (caller address : Address) (value : Word) (input : Bytes) (gasLimit : Nat)
  | transactCreate (caller : Address) (value : Word) (initCode : Bytes) (gasLimit : Nat)
      (address : Address)
  | call (codeAddress : Address) (transfer : Option Transfer) (input : Bytes)
      (targetGas : Option Nat) (readOnly : Bool) (context : Context)
  | create (caller address : Address) (value : Word) (initCode : Bytes) (targetGas : Option Nat)
  | selfDestruct (address target : Address) (balance : Word)
  | exit (exit : Exit) (output : Bytes)

structure Trace where
  listeners : List Listener
  /-- The events, the latest first. -/
  latest : List Event

namespace Trace

/-- Nobody listens. -/
def silent : Trace := ⟨[], []⟩

def hears (t : Trace) (listener : Listener) : Bool := t.listeners.contains listener

/-- The events in the order in which they happened. -/
def events (t : Trace) : List Event := t.latest.reverse

end Trace

/-- The event that announces an entry. A deposit too long to be priced, and a price that cannot be
told, are not announced. -/
def Meter.announcement (rules : Rules) (m : Meter) : Entry → Option Event
  | .cost amount => some (.recordCost amount m.snapshot)
  | .refund amount => some (.recordRefund amount m.snapshot)
  | .stipend amount => some (.recordStipend amount m.snapshot)
  | .deposit length =>
    if length * Gas.codeByte < Quantity.limit then
      some (.recordCost (length * Gas.codeByte) m.snapshot)
    else none
  | .priced price memoryEnd =>
    match m.ledger with
    | none => none
    | some l =>
      match Meter.bill rules l.memoryGas price memoryEnd with
      | .error _ => none
      | .ok b => some (.recordPriced b.cost b.memoryGas b.refund m.snapshot)

/-- Adds the announcement of an entry. -/
def Trace.announce (t : Trace) (rules : Rules) (m : Meter) (entry : Entry) : Trace :=
  if t.hears .gas then
    match m.announcement rules entry with
    | some event => ⟨t.listeners, event :: t.latest⟩
    | none => t
  else t

end ContractMachine
