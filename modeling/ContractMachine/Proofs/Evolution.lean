import ContractMachine.Execution.Run
import ContractMachine.Proofs.MeterLedger
import ContractMachine.Proofs.Rollback

/-!
# How an executor evolves

`Evolves self ex ex'` lists everything that a frame of the account `self` can do to its
executor: it records gas, announces events, changes the world, and runs nested frames,
which evolve in the same way between being entered and being closed. Every invariant of
executions is an induction over this relation, with one case for each of these.
-/

namespace ContractMachine.Proofs

/-- One change of the world that a frame of `self` makes, or that is made for it when it is
entered or closed. -/
inductive WorldChange (self : Address) (w : World) : World → Prop
  | store (slot value : Word) : WorldChange self w (w.setStorage self slot value)
  | log (topics : List Word) (data : Bytes) : WorldChange self w (w.log ⟨self, topics, data⟩)
  | raiseNonce (h : w.nonce self ≠ 0xffffffffffffffff) :
    WorldChange self w (w.setNonce self (w.nonce self + 1))
  /-- The account of a call's frame is made where there is none. -/
  | materialize (h : w.exists? self = false) : WorldChange self w (w.createAccount self)
  /-- The account of a creation is made anew. -/
  | found (hnonce : w.nonce self = 0) (hcode : (w.code self).size = 0) :
    WorldChange self w (w.createAccount self)
  | move (t : Transfer) (h : ¬w.balance t.source < t.value) :
    WorldChange self w ((w.subBalance t.source t.value).addBalance t.target t.value)
  | destroy (target : Address) :
    WorldChange self w (((w.subBalance self (w.balance self)).addBalance target
      (w.balance self)).selfDestruct self)
  | deposit (created : Address) (code : Bytes) : WorldChange self w (w.setCode created code)

/-- What a frame of `self` can make of its executor, with all frames nested in it. -/
inductive Evolves : Address → Executor → Executor → Prop
  | refl (self : Address) (ex : Executor) : Evolves self ex ex
  | trans {self : Address} {ex mid ex' : Executor} :
    Evolves self ex mid → Evolves self mid ex' → Evolves self ex ex'
  | record (self : Address) (ex : Executor) (e : Entry) : Evolves self ex (Executor.record e ex).2
  | emit (self : Address) (ex : Executor) (listener : Listener) (event : Event) :
    Evolves self ex (ex.emit listener event)
  | change {self : Address} {ex : Executor} {w : World} (h : WorldChange self ex.world w) :
    Evolves self ex { ex with world := w }
  | nested {self callee : Address} {ex inner : Executor} {gasLimit : Nat} (closing : Closing)
    (h : Evolves callee (ex.enter gasLimit false) inner) : Evolves self ex (inner.close closing)

theorem WorldChange.extends {self : Address} {w w' : World} (h : WorldChange self w w') :
    Extends w w' := by
  cases h with
  | store slot value => exact extends_setStorage w self slot value
  | log topics data => exact extends_log w _
  | raiseNonce _ => exact extends_setNonce w self _
  | materialize _ => exact extends_createAccount w self
  | found _ _ => exact extends_createAccount w self
  | move t _ => exact (extends_setBalance w _ _).trans (extends_setBalance _ _ _)
  | destroy target =>
    exact ((extends_setBalance w _ _).trans (extends_setBalance _ _ _)).trans
      (extends_selfDestruct _ self)
  | deposit created code => exact extends_setCode w created code

/-- `ex'` has the surroundings of `ex`, a frame at the same place with the same limits, and a
world whose journal leads back to that of `ex`. -/
structure Keeps (ex ex' : Executor) : Prop where
  rules : ex'.rules = ex.rules
  instructions : ex'.instructions = ex.instructions
  environment : ex'.environment = ex.environment
  origin : ex'.origin = ex.origin
  readOnly : ex'.readOnly = ex.readOnly
  waiting : ex'.waiting = ex.waiting
  depth : ex'.frame.depth = ex.frame.depth
  frameReadOnly : ex'.frame.readOnly = ex.frame.readOnly
  limit : ex'.frame.meter.limit = ex.frame.meter.limit
  hasFailed : ex'.frame.meter.hasFailed = ex.frame.meter.hasFailed
  solvent : Solvent ex.frame.meter → Solvent ex'.frame.meter
  world : Extends ex.world ex'.world

theorem Keeps.refl (ex : Executor) : Keeps ex ex where
  rules := rfl
  instructions := rfl
  environment := rfl
  origin := rfl
  readOnly := rfl
  waiting := rfl
  depth := rfl
  frameReadOnly := rfl
  limit := rfl
  hasFailed := rfl
  solvent := id
  world := Extends.refl _

theorem Keeps.trans {ex mid ex' : Executor} (h : Keeps ex mid) (h' : Keeps mid ex') :
    Keeps ex ex' where
  rules := h'.rules.trans h.rules
  instructions := h'.instructions.trans h.instructions
  environment := h'.environment.trans h.environment
  origin := h'.origin.trans h.origin
  readOnly := h'.readOnly.trans h.readOnly
  waiting := h'.waiting.trans h.waiting
  depth := h'.depth.trans h.depth
  frameReadOnly := h'.frameReadOnly.trans h.frameReadOnly
  limit := h'.limit.trans h.limit
  hasFailed := h'.hasFailed.trans h.hasFailed
  solvent hs := h'.solvent (h.solvent hs)
  world := h.world.trans h'.world

lemma record_eq {β φ : Type} (e : Entry) (ex : Executor β φ) :
    Executor.record e ex =
      ((ex.frame.meter.record ex.rules e).1,
        { ex with
          trace := ex.trace.announce ex.rules ex.frame.meter e
          frame := { ex.frame with meter := (ex.frame.meter.record ex.rules e).2 } }) := rfl

lemma keeps_record (e : Entry) (ex : Executor) : Keeps ex (Executor.record e ex).2 where
  rules := rfl
  instructions := rfl
  environment := rfl
  origin := rfl
  readOnly := rfl
  waiting := rfl
  depth := rfl
  frameReadOnly := rfl
  limit := record_limit _ _ _
  hasFailed := record_hasFailed _ _ _
  solvent := record_solvent
  world := Extends.refl _

lemma emit_eq (ex : Executor) (listener : Listener) (event : Event) :
    ∃ trace, ex.emit listener event = { ex with trace := trace } := by
  unfold Executor.emit
  by_cases h : ex.trace.hears listener = true
  · exact ⟨_, if_pos h⟩
  · exact ⟨ex.trace, if_neg h⟩

lemma keeps_withTrace (ex : Executor) (trace : Trace) : Keeps ex { ex with trace := trace } :=
  ⟨rfl, rfl, rfl, rfl, rfl, rfl, rfl, rfl, rfl, rfl, id, Extends.refl _⟩

lemma keeps_emit (ex : Executor) (listener : Listener) (event : Event) :
    Keeps ex (ex.emit listener event) := by
  obtain ⟨trace, h⟩ := emit_eq ex listener event
  rw [h]
  exact keeps_withTrace ex trace

lemma keeps_withWorld {ex : Executor} {w : World} (h : Extends ex.world w) :
    Keeps ex { ex with world := w } :=
  ⟨rfl, rfl, rfl, rfl, rfl, rfl, rfl, rfl, rfl, rfl, id, h⟩

lemma keeps_recordAll (entries : List Entry) (ex : Executor) :
    Keeps ex (Executor.recordAll entries ex).2 := by
  induction entries generalizing ex with
  | nil => exact Keeps.refl ex
  | cons e rest ih =>
    have hfirst := keeps_record e ex
    simp only [Executor.recordAll, Action.bind_apply]
    cases hr : Executor.record e ex with
    | mk result mid =>
      rw [hr] at hfirst
      cases result with
      | error f => exact hfirst
      | ok u => exact hfirst.trans (ih mid)

/-- The world that closing a frame leaves. -/
def closedWorld (closing : Closing) (before after : World) : World :=
  if closing = .commit then after else before

/-- Closing a frame that kept its surroundings restores the frame around it, which records what
the nested frame gives back. -/
lemma leave_eq {ex inner : Executor} {gasLimit : Nat} (closing : Closing)
    (h : Keeps (ex.enter gasLimit false) inner) :
    Executor.leave closing inner = Executor.recordAll (inner.frame.giveBack closing)
      { inner with
        frame := ex.frame
        waiting := ex.waiting
        world := closedWorld closing ex.world inner.world } := by
  have hwaiting : inner.waiting = (ex.frame, ex.world.snapshot) :: ex.waiting := h.waiting
  have hworld : inner.world.revertTo ex.world.snapshot = ex.world := h.world.revertTo
  simp only [Executor.leave, hwaiting, hworld, closedWorld]

lemma keeps_close {ex inner : Executor} {gasLimit : Nat} (closing : Closing)
    (h : Keeps (ex.enter gasLimit false) inner) : Keeps ex (inner.close closing) := by
  rw [Executor.close, leave_eq closing h]
  have hworld : Extends ex.world (closedWorld closing ex.world inner.world) := by
    unfold closedWorld
    by_cases hc : closing = .commit
    · rw [if_pos hc]
      exact h.world
    · rw [if_neg hc]
      exact Extends.refl _
  refine Keeps.trans ?_ (keeps_recordAll _ _)
  exact ⟨h.rules, h.instructions, h.environment, h.origin, h.readOnly, rfl, rfl, rfl, rfl, rfl, id,
    hworld⟩

/-- Whatever a frame does, it keeps its surroundings. -/
theorem Evolves.keeps {self : Address} {ex ex' : Executor} (h : Evolves self ex ex') :
    Keeps ex ex' := by
  induction h with
  | refl self ex => exact Keeps.refl ex
  | trans _ _ ih ih' => exact ih.trans ih'
  | record self ex e => exact keeps_record e ex
  | emit self ex listener event => exact keeps_emit ex listener event
  | change h => exact keeps_withWorld h.extends
  -- What the nested frame keeps are the surroundings that it was entered in, so that closing it
  -- finds its parent and the snapshot on top of the waiting frames.
  | nested closing _ ih => exact keeps_close closing ih

end ContractMachine.Proofs
