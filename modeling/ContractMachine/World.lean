import ContractMachine.World.Journal
import Std.Data.ExtTreeSet

/-!
# The world

Accounts, the accounts marked as self-destructed, and the logs, together with the journal of all
changes since the last message was settled. Going back to a snapshot takes back every change that
was made after it.
-/

namespace ContractMachine

structure World where
  accounts : Std.ExtTreeMap Address Account
  /-- The accounts that are removed when the message is settled. -/
  marked : Std.ExtTreeSet Address
  /-- The logs, the latest first. -/
  trail : List Log
  journal : Journal
  deriving DecidableEq

namespace World

/-- A world of these accounts, with nothing pending. -/
def ofAccounts (accounts : Std.ExtTreeMap Address Account) : World := ⟨accounts, ∅, [], .empty⟩

/-- The logs in the order in which they were left. -/
def logs (w : World) : List Log := w.trail.reverse

def account? (w : World) (a : Address) : Option Account := w.accounts[a]?

def exists? (w : World) (a : Address) : Bool := w.accounts.contains a

/-- The account at an address, empty if there is none. -/
def view (w : World) (a : Address) : Account := (w.account? a).getD .empty

def nonce (w : World) (a : Address) : UInt64 := (w.view a).nonce

def balance (w : World) (a : Address) : Word := (w.view a).balance

def code (w : World) (a : Address) : Bytes := (w.view a).code

def codeSize (w : World) (a : Address) : Word := BitVec.ofNat 256 (w.code a).size

def storage (w : World) (a : Address) (slot : Word) : Word := (w.view a).load slot

def isMarked (w : World) (a : Address) : Bool := w.marked.contains a

/-- Changes an account that is there. -/
def adjust (w : World) (a : Address) (f : Account → Account) : World :=
  { w with accounts := w.accounts.modify a f }

def note (w : World) (c : Change) : World := { w with journal := w.journal.push c }

/-- Makes an account where there is none. -/
def ensure (w : World) (a : Address) : World :=
  if w.exists? a then w
  else { w with accounts := w.accounts.insert a .empty }.note (.account a none)

/-- Makes a fresh account, which keeps nonce and balance of one that is there. -/
def createAccount (w : World) (a : Address) : World :=
  let previous := w.account? a
  let fresh := match previous with
    | some old => { Account.empty with nonce := old.nonce, balance := old.balance }
    | none => .empty
  { w with accounts := w.accounts.insert a fresh }.note (.account a previous)

def setNonce (w : World) (a : Address) (nonce : UInt64) : World :=
  let w := w.ensure a
  (w.adjust a fun account => { account with nonce := nonce }).note (.nonce a (w.nonce a))

def setBalance (w : World) (a : Address) (balance : Word) : World :=
  let w := w.ensure a
  (w.adjust a fun account => { account with balance := balance }).note (.balance a (w.balance a))

/-- Credits an account, at most up to the largest word. -/
def addBalance (w : World) (a : Address) (value : Word) : World :=
  w.setBalance a ((w.balance a).saturatingAdd value)

/-- Debits an account, at most down to zero. -/
def subBalance (w : World) (a : Address) (value : Word) : World :=
  w.setBalance a ((w.balance a).saturatingSub value)

def setCode (w : World) (a : Address) (code : Bytes) : World :=
  let w := w.ensure a
  (w.adjust a fun account => { account with code := code }).note (.code a (w.code a))

def setStorage (w : World) (a : Address) (slot value : Word) : World :=
  let w := w.ensure a
  (w.adjust a fun account => account.store slot value).note
    (.storage a slot (w.view a).storage[slot]?)

def log (w : World) (entry : Log) : World := { w with trail := entry :: w.trail }.note .log

/-- Marks an address as self-destructed and takes its balance away. -/
def selfDestruct (w : World) (a : Address) : World :=
  let marked := { w with marked := w.marked.insert a }
  (marked.adjust a fun account => { account with balance := 0 }).note
    (.selfDestruct a (w.isMarked a) (w.balance a))

/-- Takes one change back. -/
def undo (w : World) : Change → World
  | .account a (some previous) => { w with accounts := w.accounts.insert a previous }
  | .account a none => { w with accounts := w.accounts.erase a }
  | .nonce a previous => w.adjust a fun account => { account with nonce := previous }
  | .balance a previous => w.adjust a fun account => { account with balance := previous }
  | .code a previous => w.adjust a fun account => { account with code := previous }
  | .storage a slot previous => w.adjust a fun account => account.restore slot previous
  | .log => { w with trail := w.trail.tail }
  | .selfDestruct a wasMarked previous =>
    { w with marked := if wasMarked then w.marked else w.marked.erase a }.adjust a
      fun account => { account with balance := previous }

/-- The number of changes so far, which marks this state. -/
def snapshot (w : World) : Nat := w.journal.size

/-- Takes back the latest of these changes until `n` are left. -/
def unwind (n : Nat) (w : World) :
    (changes : List Change) → (size : Nat) → size = changes.length → World
  | [], _, _ => { w with journal := .empty }
  | c :: rest, size, h =>
    if size ≤ n then { w with journal := .ofChanges (c :: rest) size h }
    else unwind n (w.undo c) rest (size - 1) (by simp [h])

/-- Takes back every change after the snapshot. -/
def revertTo (w : World) (snapshot : Nat) : World :=
  w.unwind snapshot w.journal.changes w.journal.size w.journal.size_eq

/-- Removes the marked accounts and forgets how to go back. -/
def settle (w : World) : World :=
  { w with
    accounts := w.accounts.filter fun a _ => !w.marked.contains a
    marked := ∅
    journal := .empty }

/-- Takes the logs out. -/
def takeLogs (w : World) : List Log × World := (w.logs, { w with trail := [] })

end World

end ContractMachine
