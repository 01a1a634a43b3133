import ContractMachine.Proofs.FrameTree
import ContractMachine.Proofs.MachineLayout

/-!
# Where instructions start

A code is decoded from its first byte on, each instruction being followed by the one behind its
immediate data. The jump table marks the `JUMPDEST` bytes at which this decoding starts an
instruction, and a frame only ever stands where an instruction starts or past the end of its code,
whatever stands around the frame.
-/

namespace ContractMachine.Proofs

/-- The instruction at `q` is followed by one at `r`. -/
def FollowedBy (code : Bytes) (q r : Nat) : Prop :=
  ∃ op : UInt8, code[q]? = some op ∧ r = q + 1 + (⟨op⟩ : Opcode).pushWidth

/-- An instruction starts at this position when the code is decoded from its first byte on. -/
def InstructionStart (code : Bytes) (p : Nat) : Prop := Relation.ReflTransGen (FollowedBy code) 0 p

def IsDestination (code : Bytes) (p : Nat) : Prop := code[p]? = some 0x5b ∧ InstructionStart code p

lemma followedBy_head {code : Bytes} {q p : Nat} {op : UInt8} (hop : code[q]? = some op) :
    Relation.ReflTransGen (FollowedBy code) q p ↔
      q = p ∨ Relation.ReflTransGen (FollowedBy code) (q + 1 + (⟨op⟩ : Opcode).pushWidth) p := by
  constructor
  · intro h
    obtain rfl | ⟨r, ⟨op', hop', rfl⟩, hrest⟩ := h.cases_head
    · exact .inl rfl
    · rw [hop, Option.some.injEq] at hop'
      subst hop'
      exact .inr hrest
  · rintro (rfl | hrest)
    · exact .refl
    · exact .head ⟨op, hop, rfl⟩ hrest

lemma not_followedBy {code : Bytes} {q p : Nat} (hq : code.size ≤ q)
    (h : Relation.ReflTransGen (FollowedBy code) q p) : code[p]? = none := by
  obtain rfl | ⟨r, ⟨op, hop, -⟩, -⟩ := h.cases_head
  · exact Array.getElem?_eq_none hq
  · rw [Array.getElem?_eq_none hq] at hop
    cases hop

lemma getD_mark {marks : Array Bool} {i : Nat} (hi : i < marks.size) (p : Nat) :
    (marks.setIfInBounds i true).getD p false = true ↔ marks.getD p false = true ∨ i = p := by
  simp only [Array.getD_eq_getD_getElem?, Array.getElem?_setIfInBounds]
  by_cases hip : i = p
  · subst hip
    simp [hi]
  · simp [hip]

/-- Scanning from `i` on adds the destinations of the decoding that starts there. -/
lemma scan_getD (code : Bytes) (i : Nat) (marks : Array Bool) (hsize : marks.size = code.size)
    (p : Nat) :
    (JumpTable.scan code i marks).getD p false = true ↔ marks.getD p false = true ∨
      (code[p]? = some 0x5b ∧ Relation.ReflTransGen (FollowedBy code) i p) := by
  fun_induction JumpTable.scan code i marks with
  | case1 i marks hi op marks' ih =>
    have hop : code[i]? = some op.byte := Array.getElem?_eq_getElem hi
    -- What is marked at `i` is the head of the decoding from there, the rest is its tail.
    have hmarks : marks'.getD p false = true ↔
        marks.getD p false = true ∨ (code[p]? = some 0x5b ∧ i = p) := by
      show (if op = Opcode.jumpDest then marks.setIfInBounds i true else marks).getD p false = true
        ↔ _
      by_cases hdest : op = Opcode.jumpDest
      · rw [if_pos hdest, getD_mark (by omega)]
        have hbyte : code[i]? = some 0x5b := by rw [hop, hdest]; rfl
        have hhere : code[p]? = some 0x5b ∧ i = p ↔ i = p :=
          and_iff_right_of_imp fun hip => hip ▸ hbyte
        rw [hhere]
      · rw [if_neg hdest]
        have hbyte : code[i]? ≠ some 0x5b := by
          rw [hop]
          intro hop'
          exact hdest (congrArg Opcode.mk (Option.some.inj hop'))
        have helsewhere : ¬(code[p]? = some 0x5b ∧ i = p) := by
          rintro ⟨hbyte', rfl⟩
          exact hbyte hbyte'
        rw [or_iff_left helsewhere]
    have hkept : marks'.size = code.size := by
      show (if op = Opcode.jumpDest then marks.setIfInBounds i true else marks).size = code.size
      split <;> simp [hsize]
    rw [ih hkept, hmarks, followedBy_head hop, or_assoc, ← and_or_left]
  | case2 i marks hi =>
    constructor
    · exact .inl
    · rintro (hmarked | ⟨hbyte, hrest⟩)
      · exact hmarked
      · rw [not_followedBy (by omega) hrest] at hbyte
        cases hbyte

/-- The jump table marks exactly the destinations. -/
theorem isValid_ofCode (code : Bytes) (p : Nat) :
    (JumpTable.ofCode code).isValid p = true ↔ IsDestination code p := by
  have hscan := scan_getD code 0 (Array.replicate code.size false) Array.size_replicate p
  have hfresh : ¬(Array.replicate (Array.size code) false).getD p false = true := by
    simp only [Array.getD_eq_getD_getElem?, Array.getElem?_replicate]
    split <;> simp
  rw [or_iff_right hfresh] at hscan
  exact hscan

/-- What an instruction makes of its machine, whatever it is answered. Any executor may answer it,
and a frame that it orders may come to any outcome. -/
inductive Answered (m : Machine) : Instruction → Control → Machine → Prop
  | performed {runner : Runner} {i : Instruction} {context : Context} {ex after : Executor}
      {control : Control} {done : Machine}
      (h : perform runner i context m ex = some (control, done, after)) : Answered m i control done
  | created {value : Word} {initCode : Bytes} {taken done : Machine} (exit : Exit)
      (created : Option Address) (htake : Machine.takeCreation m = (.ok (value, initCode), taken))
      (hfinish : Machine.finishCreation exit created taken = (.ok (), done)) :
    Answered m .create .proceed done
  | called {scheme : CallScheme} {request : Machine.CallRequest} {taken done : Machine}
      (exit : Exit) (output : Bytes) (htake : Machine.takeCall scheme m = (.ok request, taken))
      (hfinish : Machine.finishCall request exit output taken = (.ok (), done)) :
    Answered m (.call scheme) .proceed done

/-- A frame goes on in one step of a standard instruction set. Whether it is read-only, what it is
charged and what it is answered may be anything at each step. -/
inductive GoesOn (m : Machine) : Machine → Prop
  | intro {s : InstructionSet} {task : Task} {grown done next : Machine} {control : Control}
      (hs : IsStandard s) (hop : m.opcode? = some task.op)
      (hoperation : task.operation = s.get task.op)
      (hvalid : task.operation.valid = true)
      (hgrow : Machine.grow task.memoryEnd m = (.ok (), grown))
      (hanswered : Answered grown task.operation.behaviour control done)
      (hconclude : task.conclude control done = (none, next)) : GoesOn m next

lemma goesOn_of_step {runner : Runner} {context : Context} {m next : Machine} {ex after : Executor}
    (hs : IsStandard ex.instructions)
    (h : step runner context m ex = some (.next next after)) : GoesOn m next := by
  cases step_stepped h with
  | goesOn hvetted hcharge hgrow hperform hconclude =>
    obtain ⟨hop, hvet⟩ := task_of_admitted hvetted
    exact .intro hs hop (operation_of_admitted hvetted) (vet_valid hvet) hgrow (.performed hperform)
      hconclude

/-- The machine runs this code and stands where an instruction starts or past the end. -/
structure Aligned (code : Bytes) (m : Machine) : Prop where
  runs : m.code = code
  table : m.jumps = JumpTable.ofCode code
  position : InstructionStart code m.position ∨ code.size ≤ m.position

lemma aligned_start (code input : Bytes) (stackLimit memoryLimit : Nat) :
    Aligned code (.start code input stackLimit memoryLimit) := ⟨rfl, rfl, .inl .refl⟩

lemma Aligned.opcode {code : Bytes} {m : Machine} {op : Opcode} (h : Aligned code m)
    (hop : m.opcode? = some op) :
    code[m.position]? = some op.byte ∧ InstructionStart code m.position := by
  rw [Machine.opcode?, h.runs, Option.map_eq_some_iff] at hop
  obtain ⟨byte, hbyte, rfl⟩ := hop
  refine ⟨hbyte, h.position.resolve_right ?_⟩
  intro hpast
  rw [Array.getElem?_eq_none hpast] at hbyte
  cases hbyte

lemma standard_jumps (i : Instruction) : (Operation.standard i).jumps = isJump i := by
  cases i with
  | call scheme => cases scheme <;> rfl
  | _ => rfl

lemma conclude_next {task : Task} {control : Control} {done next : Machine}
    (h : task.conclude control done = (none, next)) :
    control = .proceed ∧
      next = if task.operation.jumps then done else done.advance (1 + task.op.pushWidth) := by
  unfold Task.conclude at h
  cases control with
  | proceed =>
    by_cases hhalts : task.operation.halts = true
    · simp [hhalts] at h
    · by_cases hjumps : task.operation.jumps = true <;> simp_all
  | halt halt => simp at h
  | exit exit => simp at h

lemma pushWidth_of_jumpIf {op : Opcode} (h : op.instruction? = some .jumpIf) :
    op.pushWidth = 0 := by
  have hbytes : ∀ i : Fin 256, Opcode.decode (i.val / 16) (i.val % 16) = some .jumpIf →
      i.val < 0x60 := by decide +kernel
  have hbyte : op.byte.toNat < 0x60 := hbytes op.index h
  have hno : ¬(0x60 ≤ op.byte.toNat ∧ op.byte.toNat ≤ 0x7f) := by omega
  rw [Opcode.pushWidth, Opcode.pushWidth?, if_neg hno]
  rfl

/-- A jump that goes on has come to a destination, unless its condition let it pass. -/
lemma jump_lands {runner : Runner} {i : Instruction} {context : Context} {m m' : Machine}
    {ex ex' : Executor} (hi : isJump i = true)
    (h : perform runner i context m ex = some (.proceed, m', ex')) :
    m.jumps.isValid m'.position = true ∨
      (i = .jumpIf ∧ m'.position = Quantity.saturatingAdd m.position 1) := by
  have hproceeds {x : Action Machine Unit}
      (h : some (proceed x m ex) = some (.proceed, m', ex')) : x m = (.ok (), m') := by
    unfold proceed at h
    cases hx : x m with
    | mk result taken => cases result <;> simp_all
  have hlands {mid : Machine} {destination : Word} (hmid : Steady m mid)
      (h : Machine.jumpTo destination mid = (.ok (), m')) : m.jumps.isValid m'.position = true := by
    obtain ⟨-, hvalid, hmoved⟩ | ⟨-, hfault⟩ := jumpTo_cases destination mid
    · rw [hmoved, Prod.mk.injEq] at h
      rw [← h.2, ← hmid.jumps]
      exact hvalid
    · rw [hfault] at h
      cases h
  have hpopped {mid mid' : Machine} {w : Word} (h : Machine.pop mid = (.ok w, mid')) :
      Steady mid mid' := by
    have hsteady := steadies_pop mid
    rw [h] at hsteady
    exact hsteady
  cases i with
  | jump =>
    obtain ⟨destination, popped, hpop, hjump⟩ := bind_ok (hproceeds h)
    exact .inl (hlands (hpopped hpop) hjump)
  | jumpIf =>
    obtain ⟨destination, popped, hpop, hrest⟩ := bind_ok (hproceeds h)
    obtain ⟨condition, taken, hpop', hrest⟩ := bind_ok hrest
    have hsteady := (hpopped hpop).trans (hpopped hpop')
    by_cases hcondition : condition = 0
    · rw [if_pos hcondition] at hrest
      cases hrest
      exact .inr ⟨rfl, congrArg (Quantity.saturatingAdd · 1) hsteady.position⟩
    · rw [if_neg hcondition] at hrest
      exact .inl (hlands hsteady hrest)
  | _ => cases hi

lemma grow_steadiness {memoryEnd : Option Nat} {m grown : Machine} {result : Except Fault Unit}
    (h : Machine.grow memoryEnd m = (result, grown)) :
    grown.code = m.code ∧ grown.jumps = m.jumps ∧ grown.position = m.position := by
  cases memoryEnd with
  | none =>
    simp only [Machine.grow, Action.pure_apply, Prod.mk.injEq] at h
    rw [h.2]
    exact ⟨rfl, rfl, rfl⟩
  | some stop =>
    simp only [Machine.grow, Machine.onMemory, Prod.mk.injEq] at h
    rw [← h.2]
    exact ⟨rfl, rfl, rfl⟩

/-- Positions stop at the largest quantity, which is past the end of every code. -/
lemma advanced {code : Bytes} (hcode : code.size ≤ Quantity.max) {q n p : Nat}
    (hp : p = Quantity.saturatingAdd q n) (h : InstructionStart code (q + n)) :
    InstructionStart code p ∨ code.size ≤ p := by
  unfold Quantity.saturatingAdd at hp
  by_cases hfits : q + n ≤ Quantity.max
  · rw [Nat.min_eq_left hfits] at hp
    rw [hp]
    exact .inl h
  · right
    omega

lemma Steadies.of_eq {α : Type} {x : Action Machine α} (hx : Steadies x) {m m' : Machine}
    {result : Except Fault α} (h : x m = (result, m')) : Steady m m' := by
  have hsteady := hx m
  rw [h] at hsteady
  exact hsteady

lemma Answered.steady {i : Instruction} {m done : Machine} {control : Control}
    (hi : isJump i = false) (h : Answered m i control done) : Steady m done := by
  cases h with
  | performed h => exact perform_steady hi h
  | created exit created htake hfinish =>
    exact (steadies_takeCreation.of_eq htake).trans
      ((steadies_finishCreation exit created).of_eq hfinish)
  | @called scheme request _ _ exit output htake hfinish =>
    exact ((steadies_takeCall scheme).of_eq htake).trans
      ((steadies_finishCall request exit output).of_eq hfinish)

lemma Answered.layout {i : Instruction} {m done : Machine} {control : Control}
    (h : Answered m i control done) : SameLayout m done := by
  cases h with
  | performed h => exact perform_layout h
  | created exit created htake hfinish =>
    exact (Answered.steady rfl (.created exit created htake hfinish)).toSameLayout
  | called exit output htake hfinish =>
    exact (Answered.steady rfl (.called exit output htake hfinish)).toSameLayout

lemma Answered.lands {i : Instruction} {m done : Machine} (hi : isJump i = true)
    (h : Answered m i .proceed done) :
    m.jumps.isValid done.position = true ∨
      (i = .jumpIf ∧ done.position = Quantity.saturatingAdd m.position 1) := by
  cases h with
  | performed h => exact jump_lands hi h
  | created | called => cases hi

/-- A step of an aligned frame leaves it aligned. -/
theorem Aligned.goesOn {code : Bytes} (hcode : code.size ≤ Quantity.max) {m next : Machine}
    (hm : Aligned code m) (h : GoesOn m next) : Aligned code next := by
  cases h with
  | @intro s task grown done _ control hs hop hoperation hvalid hgrow hanswered hconclude =>
    obtain ⟨hcontrol, hnext⟩ := conclude_next hconclude
    subst hcontrol
    obtain ⟨i, hinstruction, hstandard⟩ := standard_get hs (hoperation ▸ hvalid)
    rw [← hoperation] at hstandard
    rw [hstandard, standard_behaviour] at hanswered
    obtain ⟨hbyte, hstart⟩ := hm.opcode hop
    obtain ⟨hgrownCode, hgrownJumps, hgrownPosition⟩ := grow_steadiness hgrow
    have hlayout := hanswered.layout
    have hafter : InstructionStart code (m.position + (1 + task.op.pushWidth)) := by
      rw [← Nat.add_assoc]
      exact hstart.tail ⟨task.op.byte, hbyte, rfl⟩
    have hjumps : task.operation.jumps = isJump i := by rw [hstandard, standard_jumps]
    have hsame : next.code = done.code ∧ next.jumps = done.jumps := by
      rw [hnext]
      split <;> exact ⟨rfl, rfl⟩
    -- A jump lands where the table has a mark, all else moves past its immediate data. A jump
    -- that is not taken moves on by one, which comes to the same as it has no such data.
    refine ⟨?_, ?_, ?_⟩
    · rw [hsame.1, hlayout.code, hgrownCode, hm.runs]
    · rw [hsame.2, hlayout.jumps, hgrownJumps, hm.table]
    · cases hjump : isJump i with
      | false =>
        have hsteady := hanswered.steady hjump
        rw [hjumps, hjump] at hnext
        refine advanced hcode ?_ hafter
        rw [hnext, ← hgrownPosition, ← hsteady.position]
        rfl
      | true =>
        rw [hjumps, hjump, if_pos rfl] at hnext
        subst hnext
        obtain hvalid | ⟨hi, hposition⟩ := hanswered.lands hjump
        · rw [hgrownJumps, hm.table, isValid_ofCode] at hvalid
          exact .inl hvalid.2
        · rw [hi] at hinstruction
          rw [pushWidth_of_jumpIf hinstruction] at hafter
          rw [hgrownPosition] at hposition
          exact advanced hcode hposition hafter

/-- The step performs a jump, or a conditional jump whose condition holds, to `destination`. -/
inductive TakesJump (c : Configuration) (destination : Word) : Prop
  | jump {task : Task} {grown : Machine} {ready : Executor}
      (hperforms : Performs c task grown ready) (hi : task.operation.behaviour = .jump)
      (hdestination : c.machine.stack.peek 0 = .ok destination)
  | jumpIf {task : Task} {grown : Machine} {ready : Executor} {condition : Word}
      (hperforms : Performs c task grown ready) (hi : task.operation.behaviour = .jumpIf)
      (hdestination : c.machine.stack.peek 0 = .ok destination)
      (hcondition : c.machine.stack.peek 1 = .ok condition) (htaken : condition ≠ 0)

lemma items_of_peek {s : Stack} {w : Word} (h : s.peek 0 = .ok w) :
    ∃ rest, s.items = w :: rest := by
  obtain ⟨items, limit⟩ := s
  cases items with
  | nil => cases h
  | cons top rest =>
    cases h
    exact ⟨rest, rfl⟩

lemma pop_of_items {m : Machine} {w : Word} {rest : List Word} (h : m.stack.items = w :: rest) :
    Machine.pop m = (.ok w, { m with stack := ⟨rest, m.stack.limit⟩ }) := by
  obtain ⟨code, input, position, start, stop, jumps, memory, items, limit⟩ := m
  simp only at h
  subst h
  rfl

/-- A step that takes a jump comes down to finding out where the jump may go. -/
lemma TakesJump.performs {c : Configuration} {destination : Word} (h : TakesJump c destination) :
    ∃ task grown ready popped, Performs c task grown ready ∧
      isJump task.operation.behaviour = true ∧ popped.jumps = grown.jumps ∧
      ∀ runner, perform runner task.operation.behaviour c.context grown ready =
        some (proceed (Machine.jumpTo destination) popped ready) := by
  cases h with
  | @jump task grown ready hperforms hi hdestination =>
    rw [← hperforms.vetted.2] at hdestination
    obtain ⟨rest, hitems⟩ := items_of_peek hdestination
    refine ⟨task, grown, ready, { grown with stack := ⟨rest, grown.stack.limit⟩ }, hperforms,
      by rw [hi]; rfl, rfl, ?_⟩
    intro runner
    have hjump : Machine.jump grown =
        Machine.jumpTo destination { grown with stack := ⟨rest, grown.stack.limit⟩ } := by
      simp only [Machine.jump, Action.bind_apply, pop_of_items hitems]
    simp only [hi, perform, proceed, hjump]
  | @jumpIf task grown ready condition hperforms hi hdestination hcondition htaken =>
    rw [← hperforms.vetted.2] at hdestination hcondition
    obtain ⟨rest, hitems⟩ := items_of_peek hdestination
    obtain ⟨deeper, hdeeper⟩ : ∃ deeper, rest = condition :: deeper := by
      refine items_of_peek (s := ⟨rest, grown.stack.limit⟩) ?_
      simpa [Stack.peek, hitems] using hcondition
    subst hdeeper
    refine ⟨task, grown, ready, { grown with stack := ⟨deeper, grown.stack.limit⟩ }, hperforms,
      by rw [hi]; rfl, rfl, ?_⟩
    intro runner
    have hjump : Machine.jumpIf grown =
        Machine.jumpTo destination { grown with stack := ⟨deeper, grown.stack.limit⟩ } := by
      have hpop : Machine.pop { grown with stack := ⟨condition :: deeper, grown.stack.limit⟩ } =
        (.ok condition, { grown with stack := ⟨deeper, grown.stack.limit⟩ }) := pop_of_items rfl
      simp only [Machine.jumpIf, Action.bind_apply, pop_of_items hitems, hpop, if_neg htaken]
    simp only [hi, perform, proceed, hjump]

/-- A jump that is taken goes to its destination if the decoding has one there, and ends the frame
if not. -/
theorem TakesJump.steps {code : Bytes} (hcode : code.size ≤ Quantity.max) {c : Configuration}
    {destination : Word} (hs : IsStandard c.executor.instructions) (hm : Aligned code c.machine)
    (h : TakesJump c destination) (runner : Runner) :
    (IsDestination code destination.toNat → ∃ next after,
      step runner c.context c.machine c.executor = some (.next next after) ∧
        next.position = destination.toNat) ∧
    (¬IsDestination code destination.toNat → ∃ last after,
      step runner c.context c.machine c.executor =
        some (.exit (.fault .invalidJump) last after)) := by
  obtain ⟨task, grown, ready, popped, hperforms, hjump, htable, hperform⟩ := h.performs
  have hstandard := (task_of_standard hs hperforms.vetted.1).2.2
  have hpopped : popped.jumps = JumpTable.ofCode code := by
    cases hperforms with
    | intro hvetted hcharge hgrow => rw [htable, (grow_steadiness hgrow).2.1, hm.table]
  have hjumps : task.operation.jumps = true ∧ task.operation.halts = false := by
    generalize task.operation.behaviour = i at hjump hstandard
    rw [hstandard, standard_jumps, hjump]
    cases i with
    | jump | jumpIf => exact ⟨rfl, rfl⟩
    | _ => cases hjump
  have hperformed := hperform runner
  obtain ⟨-, hvalid, hmoved⟩ | ⟨hinvalid, hfault⟩ := jumpTo_cases destination popped
  · rw [hpopped, isValid_ofCode] at hvalid
    refine ⟨fun _ => ?_, fun hno => absurd hvalid hno⟩
    simp only [proceed, hmoved] at hperformed
    obtain ⟨after, hstep⟩ := hperforms.dispatches hperformed
    simp only [Task.conclude, hjumps.1, hjumps.2, if_true, Bool.false_eq_true, if_false] at hstep
    exact ⟨_, after, hstep, rfl⟩
  · rw [hpopped, isValid_ofCode] at hinvalid
    refine ⟨fun hdestination => ?_, fun _ => ?_⟩
    · refine absurd ⟨?_, hdestination⟩ hinvalid
      obtain ⟨hlt, -⟩ := Array.getElem?_eq_some_iff.mp hdestination.1
      have hmax : Quantity.max < Quantity.limit := by decide
      omega
    · simp only [proceed, hfault] at hperformed
      obtain ⟨after, hstep⟩ := hperforms.dispatches hperformed
      exact ⟨_, after, hstep⟩

/-- The jump table of a code marks the `JUMPDEST` bytes at which its linear decoding starts an
instruction. A frame that runs the code stands at the beginning of each step where an instruction
starts or past the end, whatever it is charged and answered. A jump to a word that is no destination
ends it. -/
theorem push_data_is_never_executed (code : Bytes) :
    (∀ p, (JumpTable.ofCode code).isValid p = true ↔
      code[p]? = some 0x5b ∧ InstructionStart code p) ∧
    (∀ runner context m ex next after, IsStandard ex.instructions →
      step runner context m ex = some (.next next after) → GoesOn m next) ∧
    (code.size ≤ Quantity.max → ∀ input stackLimit memoryLimit m,
      Relation.ReflTransGen GoesOn (.start code input stackLimit memoryLimit) m →
        (InstructionStart code m.position ∨ code.size ≤ m.position) ∧
        ∀ runner context ex destination, IsStandard ex.instructions →
          TakesJump ⟨context, m, ex⟩ destination →
            (IsDestination code destination.toNat → ∃ next after,
              step runner context m ex = some (.next next after) ∧
                next.position = destination.toNat) ∧
            (¬IsDestination code destination.toNat → ∃ last after,
              step runner context m ex = some (.exit (.fault .invalidJump) last after))) := by
  refine ⟨isValid_ofCode code, fun _ _ _ _ _ _ => goesOn_of_step, ?_⟩
  intro hcode input stackLimit memoryLimit m hruns
  have haligned : Aligned code m := by
    induction hruns with
    | refl => exact aligned_start code input stackLimit memoryLimit
    | tail _ hgoesOn ih => exact ih.goesOn hcode hgoesOn
  exact ⟨haligned.position, fun runner context ex destination hs hjump =>
    TakesJump.steps hcode (c := ⟨context, m, ex⟩) hs haligned hjump runner⟩

/-- A jump into the data of the push behind it. -/
def misleadingCode : Bytes := #[0x60, 0x04, 0x56, 0x60, 0x5b, 0x5b]

def misleadingExecutor : Executor := (Executor.new (.ofAccounts ∅) .homestead .zero).enter 100 false

def paysForJump (context : Context) (m : Machine) (ex : Executor) : Bool :=
  match ex.admit m with
  | .error _ => false
  | .ok task => task.operation.behaviour == .jump && task.memoryEnd.isNone &&
      (Executor.charge task.op context.address m.stack task.memoryEnd ex).1.toBool

lemma performs_of_paysForJump {context : Context} {m : Machine} {ex : Executor}
    (h : paysForJump context m ex = true) :
    ∃ task grown ready, Performs ⟨context, m, ex⟩ task grown ready ∧
      task.operation.behaviour = .jump := by
  unfold paysForJump at h
  cases hvetted : ex.admit m with
  | error exit => simp [hvetted] at h
  | ok task =>
    obtain ⟨op, operation, memoryEnd⟩ := task
    simp only [hvetted, Bool.and_eq_true, beq_iff_eq, Option.isNone_iff_eq_none] at h
    obtain ⟨⟨hi, rfl⟩, hpaid⟩ := h
    cases hcharge : Executor.charge op context.address m.stack none ex with
    | mk result paid =>
      cases result with
      | error f => simp [hcharge, Except.toBool] at hpaid
      | ok u => exact ⟨_, _, _, .intro hvetted hcharge rfl, hi⟩

/-- The first step comes to the jump, with its destination on the stack. -/
def comesToJump (context : Context) : Progress → Bool
  | .next m ex => m.position == 2 && m.stack.items == [4] && paysForJump context m ex
  | .exit _ _ _ => false

theorem push_data_is_never_executed_misleadingCode :
    ∃ (m : Machine) (ex : Executor),
      Relation.ReflTransGen GoesOn (.start misleadingCode #[] 1024 1024) m ∧
      m.position = 2 ∧ (InstructionStart misleadingCode 2 ∨ misleadingCode.size ≤ 2) ∧
      ∃ last after, step (run 0) ⟨0xa, 0xb, 0⟩ m ex =
        some (.exit (.fault .invalidJump) last after) := by
  have hinstructions : misleadingExecutor.instructions = .homestead := rfl
  have hfirst : (step (run 0) ⟨0xa, 0xb, 0⟩ (.start misleadingCode #[] 1024 1024)
      misleadingExecutor).map (comesToJump ⟨0xa, 0xb, 0⟩) = some true := by
    decide +kernel
  obtain ⟨p, hstep, hp⟩ := Option.map_eq_some_iff.mp hfirst
  cases p with
  | exit exit m ex => cases hp
  | next m ex =>
    simp only [comesToJump, Bool.and_eq_true, beq_iff_eq] at hp
    obtain ⟨⟨hposition, hitems⟩, hpays⟩ := hp
    obtain ⟨htable, hsteps, hruns⟩ := push_data_is_never_executed misleadingCode
    have hreached := Relation.ReflTransGen.single
      (hsteps _ _ _ _ _ _ (.inr hinstructions) hstep)
    have hkept : ex.instructions = .homestead :=
      (step_evolves (run_evolves 0) hstep).keeps.instructions
    obtain ⟨task, grown, ready, hperforms, hi⟩ := performs_of_paysForJump hpays
    have htakes : TakesJump ⟨⟨0xa, 0xb, 0⟩, m, ex⟩ 4 :=
      .jump hperforms hi (by simp [Stack.peek, hitems])
    obtain ⟨hstart, hjumps⟩ := hruns (by decide) _ _ _ _ hreached
    rw [hposition] at hstart
    refine ⟨m, ex, hreached, hposition, hstart, (hjumps (run 0) _ ex 4 (.inr hkept) htakes).2 ?_⟩
    intro hdestination
    have hvalid := (htable 4).mpr hdestination
    exact absurd hvalid (by decide +kernel)

end ContractMachine.Proofs
