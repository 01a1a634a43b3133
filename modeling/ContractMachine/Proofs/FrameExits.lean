import ContractMachine.Proofs.MemoryAccesses
import ContractMachine.Proofs.PricedOperations

/-!
# How frames end

Under the rules of its fork a frame of a standard set ends well, or in one of seven faults. Which
opcode it stopped at tells an opcode outside the set from everything else. What nested calls and
creations come to never shows in the end of the frame around them.
-/

namespace ContractMachine.Proofs

/-- Where the action faults, it stays at its position. -/
def StaysPut (x : Action Machine Unit) : Prop := ∀ m f m', x m = (.error f, m') → Steady m m'

lemma StaysPut.bind {α : Type} {x : Action Machine α} {k : α → Action Machine Unit}
    (hx : Steadies x) (hk : ∀ a, StaysPut (k a)) : StaysPut (x >>= k) := by
  intro m f m' h
  have hfirst := hx m
  rw [Action.bind_apply] at h
  cases hm : x m with
  | mk result taken =>
    rw [hm] at h hfirst
    cases result with
    | error g =>
      cases h
      exact hfirst
    | ok a => exact hfirst.trans (hk a taken f m' h)

lemma staysPut_jumpTo (destination : Word) : StaysPut (Machine.jumpTo destination) := by
  intro m f m' h
  obtain ⟨-, -, hgoes⟩ | ⟨-, hfault⟩ := jumpTo_cases destination m
  · rw [hgoes] at h
    cases h
  · rw [hfault] at h
    cases h
    exact .refl m

lemma staysPut_jump : StaysPut Machine.jump := .bind steadies_pop staysPut_jumpTo

lemma staysPut_jumpIf : StaysPut Machine.jumpIf := by
  refine .bind steadies_pop fun destination => .bind steadies_pop fun condition => ?_
  intro m f m' h
  by_cases hzero : condition = 0
  · rw [if_pos hzero] at h
    cases h
  · rw [if_neg hzero] at h
    exact staysPut_jumpTo destination m f m' h

variable {runner : Runner} {context : Context} {m m' done : Machine} {ex ex' after : Executor}
  {control : Control}

lemma proceed_stays {x : Action Machine Unit} (hx : StaysPut x) (hstops : control ≠ .proceed)
    (h : some (proceed x m ex) = some (control, done, after)) : Steady m done := by
  unfold proceed at h
  cases hm : x m with
  | mk result taken =>
    simp only [hm] at h
    cases result with
    | error f =>
      cases h
      exact hx m f done hm
    | ok u =>
      cases h
      exact absurd rfl hstops

/-- An instruction that does not go on stays where it is. -/
lemma perform_stays {i : Instruction} (hstops : control ≠ .proceed)
    (h : perform runner i context m ex = some (control, done, after)) : Steady m done := by
  cases hi : isJump i with
  | false => exact perform_steady hi h
  | true =>
    cases i with
    | jump => exact proceed_stays staysPut_jump hstops h
    | jumpIf => exact proceed_stays staysPut_jumpIf hstops h
    | _ => cases hi

lemma Steady.opcode {m m' : Machine} (h : Steady m m') : m'.opcode? = m.opcode? := by
  simp only [Machine.opcode?, h.code, h.position]

lemma grow_opcode {memoryEnd : Option Nat} {grown : Machine} {result : Except Fault Unit}
    (h : Machine.grow memoryEnd m = (result, grown)) : grown.opcode? = m.opcode? := by
  cases memoryEnd with
  | none =>
    cases h
    rfl
  | some stop =>
    simp only [Machine.grow, Machine.onMemory, Prod.mk.injEq] at h
    rw [← h.2]
    rfl

/-- The ends that come from an operation of the set. -/
inductive OwnEnd : Exit → Prop
  | succeeded (halt : Halt) : OwnEnd (.succeed halt)
  | stackUnderflow : OwnEnd (.fault .stackUnderflow)
  | stackOverflow : OwnEnd (.fault .stackOverflow)
  | invalidJump : OwnEnd (.fault .invalidJump)
  | outOfGas : OwnEnd (.fault .outOfGas)
  | gasUintOverflow : OwnEnd (.fault .gasUintOverflow)
  | writeProtection : OwnEnd (.fault .writeProtection)

/-- The end of a frame at the machine `m`: at an opcode outside the set, or at one that belongs to
it or past the code. -/
inductive EndsAt (s : InstructionSet) (m : Machine) : Exit → Prop
  | undefined {op : Opcode} (hop : m.opcode? = some op) (hvalid : (s.get op).valid = false) :
    EndsAt s m (.fault (.invalidCode op))
  | own {exit : Exit} (hvalid : ∀ op, m.opcode? = some op → (s.get op).valid = true)
      (hexit : OwnEnd exit) : EndsAt s m exit

lemma Unpaid.ownEnd {f : Fault} (h : Unpaid f) : OwnEnd (.fault f) := by
  obtain rfl | rfl := h
  · exact .outOfGas
  · exact .gasUintOverflow

lemma check_ownEnd (s : Stack) (pop push : Nat) :
    FaultsIn (fun f => OwnEnd (.fault f)) (s.check pop push) :=
  .ite (faultsIn_error .stackUnderflow) (.ite (faultsIn_error .stackOverflow) (faultsIn_ok ()))

/-- Whatever the operands, the memory that an operation needs can fail only to be a quantity. -/
lemma memoryNeed_ownEnd {i : Instruction} {stack : Stack}
    (hoperands : (Operation.standard i).pop ≤ stack.height) :
    FaultsIn (fun f => OwnEnd (.fault f)) (memoryNeed (.standard i) stack) := by
  obtain ⟨bound, halign, -⟩ | hoverflow := memoryNeed_cases hoperands
  · rw [halign]
    cases bound with
    | none => exact faultsIn_ok none
    | some stop =>
      rw [Footprint.align_some]
      exact .ite (faultsIn_ok _) (faultsIn_error .gasUintOverflow)
  · rw [hoverflow]
    exact faultsIn_error .gasUintOverflow

/-- A frame that is not admitted any more ends at an opcode outside the set, or by itself. -/
lemma admit_endsAt {exit : Exit} (hs : IsStandard ex.instructions) (h : ex.admit m = .error exit) :
    EndsAt ex.instructions m exit := by
  unfold Executor.admit at h
  cases hop : m.opcode? with
  | none =>
    simp only [hop] at h
    cases h
    refine .own ?_ (.succeeded .stopped)
    intro op hnone
    rw [hop] at hnone
    cases hnone
  | some op =>
    have hvetting := vet_vetting ex op (ex.instructions.get op) m.stack
    cases hvet : ex.vet op (ex.instructions.get op) m.stack with
    | ok memoryEnd => simp [hop, hvet] at h
    | error f =>
      simp only [hop, hvet] at h
      cases h
      have hown (hvalid : (ex.instructions.get op).valid = true) (hf : OwnEnd (.fault f)) :
          EndsAt ex.instructions m (.fault f) := by
        refine .own ?_ hf
        intro other hother
        rw [hop] at hother
        cases hother
        exact hvalid
      generalize hresult : (Except.error f : Except Fault (Option Nat)) = result at hvet
      rw [hvet] at hvetting
      cases hvetting with
      | undefined hvalid =>
        cases hresult
        exact .undefined hop hvalid
      | unfit hvalid hcheck =>
        cases hresult
        exact hown hvalid (check_ownEnd _ _ _ f hcheck)
      | unreadable hvalid hcheck hrefuses =>
        obtain ⟨i, hi, hget⟩ := standard_get hs hvalid
        rw [hget] at hcheck hrefuses
        obtain ⟨refuses, hok⟩ := refusesWrite_ok ex hi (check_ok hcheck).1
        rw [hok] at hrefuses
        cases hrefuses
      | readOnly hvalid hcheck hrefuses =>
        cases hresult
        exact hown hvalid .writeProtection
      | measured hvalid hcheck hrefuses =>
        obtain ⟨i, hi, hget⟩ := standard_get hs hvalid
        rw [hget] at hcheck hresult
        exact hown hvalid (memoryNeed_ownEnd (check_ok hcheck).1 f hresult.symm)

/-- A standard operation that has been performed and ends its frame ends it in one of these ways. -/
lemma conclude_ownEnd {task : Task} {last : Machine} {exit : Exit}
    (hstandard : task.operation = .standard task.operation.behaviour)
    (hdeclared : Declared task.operation m control done)
    (h : task.conclude control done = (some exit, last)) :
    OwnEnd exit ∧ last = done ∧ control ≠ .proceed := by
  cases hdeclared with
  | goesOn hhalts hstack =>
    simp only [Task.conclude, hhalts, Bool.false_eq_true, if_false] at h
    split at h <;> cases h
  | ends hhalts =>
    have hreverts : task.operation.reverts = false := by
      rw [hstandard]
      exact standard_reverts _
    simp only [Task.conclude, hreverts, Bool.false_eq_true, if_false] at h
    cases h
    exact ⟨.succeeded _, rfl, by simp⟩
  | astray hjump =>
    cases h
    exact ⟨.invalidJump, rfl, by simp⟩

theorem step_endsAt {exit : Exit} (hmatches : MatchesFork ex)
    (h : step runner context m ex = some (.exit exit m' ex')) : EndsAt ex.instructions m' exit := by
  have hs := hmatches.standard
  -- Once the step is admitted its opcode belongs to the set, and stays the opcode at the position.
  have hown {task : Task} {last : Machine} (hvetted : ex.admit m = .ok task)
      (hstays : last.opcode? = m.opcode?) (hexit : OwnEnd exit) :
      EndsAt ex.instructions last exit := by
    refine .own ?_ hexit
    intro op hlast
    rw [hstays, (task_of_admitted hvetted).1] at hlast
    cases hlast
    rw [← operation_of_admitted hvetted]
    exact (task_of_standard hs hvetted).1
  cases step_stepped h with
  | refused hvetted => exact admit_endsAt hs hvetted
  | @unpaid task f mid hvetted hcharge =>
    refine hown hvetted rfl ?_
    obtain ⟨hvalid, hcheck, hneed⟩ := vet_ok (task_of_admitted hvetted).2
    rw [operation_of_admitted hvetted] at hvalid hcheck hneed
    obtain ⟨e, hpriced, hrecord⟩ := charge_priced hmatches hvalid hcheck hneed context.address
    rw [hrecord] at hcharge
    exact (record_unpaid hpriced ex f (congrArg Prod.fst hcharge)).ownEnd
  | @tooLarge task f mid grown hvetted hcharge hgrow =>
    refine hown hvetted (grow_opcode hgrow) ?_
    obtain ⟨-, -, hneed⟩ := vet_ok (task_of_admitted hvetted).2
    rw [grow_refused hneed hgrow]
    exact .outOfGas
  | @ends task mid after grown done last control before event exit hvetted hcharge hgrow hperform
      hconclude =>
    obtain ⟨-, -, hstandard⟩ := task_of_standard hs hvetted
    have hperforms : Performs ⟨context, m, ex⟩ task grown _ := .intro hvetted hcharge hgrow
    have hdeclared := hperforms.declared hs hperform
    obtain ⟨hexit, rfl, hstops⟩ := conclude_ownEnd hstandard hdeclared hconclude
    exact hown hvetted ((perform_stays hstops hperform).opcode.trans (grow_opcode hgrow)) hexit

theorem run_endsAt {fuel : Nat} {exit : Exit} (hmatches : MatchesFork ex)
    (h : run fuel context m ex = some (exit, m', ex')) : EndsAt ex.instructions m' exit := by
  induction fuel generalizing m ex with
  | zero => simp [run] at h
  | succ fuel ih =>
    obtain hstep | ⟨next, after, hstep, hrest⟩ := run_succ h
    · exact step_endsAt hmatches hstep
    · have hkeeps : Keeps ex after := (step_evolves (run_evolves fuel) hstep).keeps
      rw [← hkeeps.instructions]
      exact ih (hmatches.keeps hkeeps) hrest

/-- Under the rules of its fork every operation of a set is priced, and charging for it can only
find too little gas or an amount that is no quantity. The price of a call, which is summed without a
check, is the sum of its parts wherever that is a quantity. A frame ends well or in a fault of its
own: the stack, a jump, the gas, the write protection, or an opcode outside the set, which is then
the opcode at which it ends. Whatever the frames came to that it entered, no other fault and no
revert ends it. -/
theorem frames_end_by_themselves {ex : Executor} (hmatches : MatchesFork ex) :
    (∀ op address stack memoryEnd, (ex.instructions.get op).valid = true →
      (ex.instructions.get op).checkStack stack = .ok () →
      memoryNeed (ex.instructions.get op) stack = .ok memoryEnd →
      (∃ e, Priced e ∧ Executor.charge op address stack memoryEnd ex = Executor.record e ex) ∧
        ∀ f paid, Executor.charge op address stack memoryEnd ex = (.error f, paid) →
          f = .outOfGas ∨ f = .gasUintOverflow) ∧
    (∀ value newTarget, Gas.callSum ex.rules value newTarget < Quantity.limit →
      Gas.callCost ex.rules value newTarget = Gas.callSum ex.rules value newTarget) ∧
    ∀ fuel context m exit last after, run fuel context m ex = some (exit, last, after) →
      (OwnEnd exit ∨ ∃ op, exit = .fault (.invalidCode op)) ∧
        ∀ op, exit = .fault (.invalidCode op) ↔
          last.opcode? = some op ∧ (ex.instructions.get op).valid = false := by
  refine ⟨?_, fun value newTarget hfits => Gas.callCost_eq hfits, ?_⟩
  · intro op address stack memoryEnd hvalid hcheck hneed
    obtain ⟨e, hpriced, hrecord⟩ := charge_priced hmatches hvalid hcheck hneed address
    refine ⟨⟨e, hpriced, hrecord⟩, ?_⟩
    intro f paid hcharge
    rw [hrecord] at hcharge
    exact record_unpaid hpriced ex f (congrArg Prod.fst hcharge)
  · intro fuel context m exit last after hrun
    cases run_endsAt hmatches hrun with
    | @undefined op hop hvalid =>
      refine ⟨.inr ⟨op, rfl⟩, ?_⟩
      intro other
      constructor
      · rintro ⟨⟩
        exact ⟨hop, hvalid⟩
      · rintro ⟨hother, -⟩
        rw [hop] at hother
        cases hother
        rfl
    | own hvalid hexit =>
      refine ⟨.inl hexit, ?_⟩
      intro op
      constructor
      · rintro rfl
        cases hexit
      · rintro ⟨hop, hinvalid⟩
        rw [hvalid op hop] at hinvalid
        cases hinvalid

/-- Sends value, and then comes to an opcode that no set describes. -/
def derailingCode : Bytes := #[0x36, 0x36, 0x36, 0x36, 0x60, 1, 0x36, 0x36, 0xf1, 0x0c]

/-- No account has anything to send. -/
def derailingExecutor : Executor :=
  (Executor.new (.ofAccounts ∅) .homestead .zero).reset 0xc 90000

theorem frames_end_by_themselves_derailingExecutor :
    ∃ last after, run 12 ⟨0xa, 0xc, 0⟩ (.start derailingCode #[] 1024 4096) derailingExecutor =
        some (.fault (.invalidCode ⟨0x0c⟩), last, after) ∧
      last.opcode? = some ⟨0x0c⟩ ∧ (InstructionSet.homestead.get ⟨0x0c⟩).valid = false := by
  have hends : (run 12 ⟨0xa, 0xc, 0⟩ (.start derailingCode #[] 1024 4096) derailingExecutor).map
      Prod.fst = some (.fault (.invalidCode ⟨0x0c⟩)) := by
    decide +kernel
  obtain ⟨⟨exit, last, after⟩, hrun, rfl⟩ := Option.map_eq_some_iff.mp hends
  have hmatches : MatchesFork derailingExecutor := rfl
  obtain ⟨-, -, hexits⟩ := frames_end_by_themselves hmatches
  obtain ⟨-, hundefined⟩ := hexits 12 _ _ _ last after hrun
  obtain ⟨hop, hvalid⟩ := (hundefined ⟨0x0c⟩).mp rfl
  exact ⟨last, after, hrun, hop, hvalid⟩

end ContractMachine.Proofs
