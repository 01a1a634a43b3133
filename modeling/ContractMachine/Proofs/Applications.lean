import ContractMachine.Proofs.FailedMessages
import ContractMachine.Proofs.KeptEffects

/-!
# Messages that are applied one after the other

An accepted message is executed, and then settled, which removes the accounts that are marked. A
rejected one leaves the world as it was. What a part of the world comes to in a sequence of messages
can therefore be told from their kept steps and from the accounts that they remove.
-/

namespace ContractMachine.Proofs

/-- A message and what has come of it. -/
structure Application where
  executor : Executor
  message : Message
  pool : GasPool
  applied : Applied
  happlied : executor.applyMessage message pool = some applied

namespace Application

def before (a : Application) : World := a.executor.world

def after (a : Application) : World := a.applied.executor.world

def Accepted (a : Application) : Prop := ∃ receipt, a.applied.result = .ok receipt

/-- The message of `b` is applied to the world that the message of `a` has left. -/
def Follows (a b : Application) : Prop := b.before = a.after

def order (a : Application) : Order := messageOrder a.message

/-- The executor that carries out the order of the message. -/
def ready (a : Application) : Executor :=
  messageReady (a.executor.ensureAccount a.message.sender) a.message

/-- The steps of the frames that are committed together with all frames around them. -/
def kept (a : Application) : List Configuration :=
  a.order.keptSteps Executor.stepAllowance a.ready

/-- The message is accepted, and its execution ends in the world `w`, which is then settled. -/
def Ends (a : Application) (w : World) : Prop :=
  a.Accepted ∧ ∃ outcome ended,
    (a.executor.ensureAccount a.message.sender).executeMessage a.message = some (outcome, ended) ∧
      ended.world = w

/-- The message is accepted, and settling it removes the account `x`. -/
def Removes (a : Application) (x : Address) : Prop :=
  ∃ w, a.Ends w ∧ w.exists? x = true ∧ w.isMarked x = true

variable {a : Application} {w : World}

lemma Accepted.rejection? (h : a.Accepted) :
    rejection? a.executor.world a.pool a.message = none := by
  obtain ⟨receipt, hresult⟩ := h
  exact (applyMessage_accepted a.happlied hresult).1

lemma Accepted.ends (h : a.Accepted) : ∃ w, a.Ends w := by
  obtain ⟨receipt, hresult⟩ := id h
  obtain ⟨-, outcome, ended, used, hexecuted, -⟩ := applyMessage_accepted a.happlied hresult
  exact ⟨ended.world, h, outcome, ended, hexecuted, rfl⟩

lemma Ends.after (h : a.Ends w) : a.after = w.settle := by
  obtain ⟨⟨receipt, hresult⟩, outcome, ended, hexecuted, rfl⟩ := h
  obtain ⟨-, outcome', ended', used, hexecuted', -, -, -, hexecutor⟩ :=
    applyMessage_accepted a.happlied hresult
  rw [hexecuted] at hexecuted'
  cases hexecuted'
  rw [Application.after, hexecutor]
  rfl

lemma after_of_rejected (h : ¬a.Accepted) : a.after = a.before := by
  cases hrejection : Proofs.rejection? a.executor.world a.pool a.message with
  | some rejection =>
    obtain ⟨after, happlied, hworld⟩ := applyMessage_rejected hrejection
    rw [a.happlied, Option.some.injEq] at happlied
    rw [Application.after, happlied]
    exact hworld
  | none =>
    obtain ⟨receipt, hresult, -⟩ := accepted_of_rejection?_eq_none hrejection a.happlied
    exact absurd ⟨receipt, hresult⟩ h

lemma Removes.accepted {x : Address} (h : a.Removes x) : a.Accepted := by
  obtain ⟨w, hends, -⟩ := h
  exact hends.1

lemma Removes.absent {x : Address} (h : a.Removes x) : a.after.exists? x = false := by
  obtain ⟨w, hends, -, hmarked⟩ := h
  rw [hends.after, exists?_eq_isSome, settle_account?, if_pos hmarked]
  rfl

/-- The kept steps of an accepted message lead from the world that its frame is entered in to the
one that is settled. -/
theorem Ends.chronicle {α : Type} {part : Part α} (hlaw : part.Lawful) (h : a.Ends w) :
    Chronicle part (part.value (a.order.entryWorld a.ready)) a.kept (part.value w) := by
  obtain ⟨haccepted, outcome, ended, hexecuted, rfl⟩ := h
  obtain ⟨last, carried, hcarried, rfl⟩ := executeMessage_order hexecuted
  rw [emit_world]
  refine runs_chronicle hlaw (fun henters => congrArg part.value henters.world) ?_ hcarried
  exact fun hrefused => absurd hrefused (not_refused_of_accepted haccepted.rejection?)

end Application

end ContractMachine.Proofs
