import ContractMachine.Proofs.VettedOperands

/-!
# What operations declare about the stack

The table of operations says how many items each opcode takes and puts back and whether it ends the
frame. What the instructions do keeps to it: an instruction that is supplied with what its operation
declares replaces exactly so many items, and no outcome of a nested call or creation ends the frame
around it.
-/

namespace ContractMachine.Proofs

/-- The second stack has `push` other items where the first has `pop`, and is the same below. -/
structure Replaces (pop push : Nat) (s s' : Stack) : Prop where
  height : s'.height = s.height - pop + push
  below : s'.items.drop push = s.items.drop pop
  limit : s'.limit = s.limit

lemma replaces (taken given rest : List Word) (limit : Nat) :
    Replaces taken.length given.length ⟨taken ++ rest, limit⟩ ⟨given ++ rest, limit⟩ where
  height := by
    simp only [Stack.height, List.length_append]
    omega
  below := by rw [List.drop_left, List.drop_left]
  limit := rfl

/-- A copy of one of the first `n` items leaves what is below them. -/
lemma replaces_dup (n : Nat) (items : List Word) (w : Word) (limit : Nat) (hn : n ≤ items.length) :
    Replaces n (n + 1) ⟨items, limit⟩ ⟨w :: items, limit⟩ where
  height := by
    simp only [Stack.height, List.length_cons]
    omega
  below := rfl
  limit := rfl

/-- Exchanging two items among the first `n + 1` leaves what is below them. -/
lemma replaces_swap (n : Nat) (items : List Word) (a b : Word) (limit : Nat)
    (hn : n + 1 ≤ items.length) :
    Replaces (n + 1) (n + 1) ⟨items, limit⟩ ⟨(items.set 0 b).set n a, limit⟩ where
  height := by
    simp only [Stack.height, List.length_set]
    omega
  below := by
    rw [List.drop_set_of_lt (Nat.lt_succ_self n), List.drop_set_of_lt (Nat.succ_pos n)]
  limit := rfl

/-- What an operation says that its instruction makes of a machine. -/
inductive Declared (o : Operation) (m : Machine) : Control → Machine → Prop
  | goesOn {done : Machine} (hhalts : o.halts = false)
      (hstack : Replaces o.pop o.push m.stack done.stack) : Declared o m .proceed done
  | ends {halt : Halt} {done : Machine} (hhalts : o.halts = true) : Declared o m (.halt halt) done
  | astray {done : Machine} (hjump : isJump o.behaviour = true) :
    Declared o m (.fault .invalidJump) done

variable {runner : Runner} {context : Context} {m done : Machine} {ex after : Executor}
  {control : Control}

lemma proceed_declared {o : Operation} {x : Action Machine Unit} {taken m' : Machine}
    (hx : x taken = (.ok (), m')) (hhalts : o.halts = false)
    (hstack : Replaces o.pop o.push m.stack m'.stack)
    (h : some (proceed x taken ex) = some (control, done, after)) : Declared o m control done := by
  simp only [proceed, hx, Option.some.injEq, Prod.mk.injEq] at h
  obtain ⟨rfl, rfl, -⟩ := h
  exact .goesOn hhalts hstack

/-- The action jumps and leaves the stack to `taken`, or it faults for the destination. -/
def JumpsFrom (taken : Stack) (x : Action Machine Unit) (m : Machine) : Prop :=
  (∃ m', x m = (.ok (), m') ∧ m'.stack = taken) ∨ ∃ m', x m = (.error .invalidJump, m')

lemma jumpsFrom_jumpTo (destination : Word) (m : Machine) :
    JumpsFrom m.stack (Machine.jumpTo destination) m := by
  obtain ⟨-, -, h⟩ | ⟨-, h⟩ := jumpTo_cases destination m
  · exact .inl ⟨_, h, rfl⟩
  · exact .inr ⟨_, h⟩

lemma jumpsFrom_jump (a : Word) (rest : List Word) (m : Machine) :
    JumpsFrom ⟨rest, m.stack.limit⟩ Machine.jump (withItems (a :: rest) m) :=
  jumpsFrom_jumpTo a (withItems rest m)

lemma jumpsFrom_jumpIf (a b : Word) (rest : List Word) (m : Machine) :
    JumpsFrom ⟨rest, m.stack.limit⟩ Machine.jumpIf (withItems (a :: b :: rest) m) := by
  have hjump : Machine.jumpIf (withItems (a :: b :: rest) m) =
      (if b = 0 then Action.modify (Machine.advance 1) else Machine.jumpTo a)
        (withItems rest m) := rfl
  unfold JumpsFrom
  rw [hjump]
  by_cases hzero : b = 0
  · rw [if_pos hzero]
    exact .inl ⟨_, rfl, rfl⟩
  · rw [if_neg hzero]
    exact jumpsFrom_jumpTo a (withItems rest m)

lemma jump_declared {o : Operation} {x : Action Machine Unit} {taken : Stack}
    (hjump : isJump o.behaviour = true) (hhalts : o.halts = false)
    (hx : JumpsFrom taken x m) (hstack : Replaces o.pop o.push m.stack taken)
    (h : some (proceed x m ex) = some (control, done, after)) : Declared o m control done := by
  obtain ⟨m', hx, rfl⟩ | ⟨m', hx⟩ := hx
  · exact proceed_declared hx hhalts hstack h
  · simp only [proceed, hx, Option.some.injEq, Prod.mk.injEq] at h
    obtain ⟨rfl, rfl, -⟩ := h
    exact .astray hjump

/-- However the frame of a call ends, the call replaces its operands by one item. -/
lemma call_declared {scheme : CallScheme} (items : List Word)
    (hsupplied : Supplied (.call scheme) (withItems items m))
    (h : perform runner (.call scheme) context (withItems items m) ex =
      some (control, done, after)) :
    Declared (.standard (.call scheme)) (withItems items m) control done := by
  obtain ⟨o, rest, rfl, hroom, -, -, houtput, htake⟩ := hsupplied.call
  have hpush : (Operation.standard (.call scheme)).push = 1 := by cases scheme <;> rfl
  have hreplaces (w : Word) : Replaces (Operation.standard (.call scheme)).pop
      (Operation.standard (.call scheme)).push ⟨o.stacked scheme ++ rest, m.stack.limit⟩
        ⟨w :: rest, m.stack.limit⟩ := by
    rw [← o.stacked_length, hpush]
    exact replaces (o.stacked scheme) [w] rest _
  simp only [perform, takeThen, htake m] at h
  split at h
  · cases h
  · next outcome called hcall =>
    have hfinish := finishCall_eq (o.request m.memory) outcome.exit outcome.output houtput hroom
    exact proceed_declared hfinish (by cases scheme <;> rfl) (hreplaces _) h

lemma perform_items_declared {i : Instruction} (items : List Word)
    (hvalid : (Operation.standard i).valid = true) (hdup : i ≠ .dup 0)
    (hsupplied : Supplied i (withItems items m))
    (h : perform runner i context (withItems items m) ex = some (control, done, after)) :
    Declared (.standard i) (withItems items m) control done := by
  have hoperands := hsupplied.operands
  have hroom := hsupplied.room
  have hcovered := hsupplied.covered
  cases i with
  | stop =>
    cases h
    exact .ends rfl
  | unary op =>
    obtain ⟨a, rest, rfl, -⟩ := exists_top (n := 0) hoperands
    exact proceed_declared (unary_eq op hroom) rfl (replaces [a] [_] rest _) h
  | binary op =>
    obtain ⟨a, b, rest, rfl, -⟩ := exists_two (n := 0) hoperands
    exact proceed_declared (binary_eq op hroom) rfl (replaces [a, b] [_] rest _) h
  | ternary op =>
    obtain ⟨a, b, c, rest, rfl, -⟩ := exists_three (n := 0) hoperands
    exact proceed_declared (ternary_eq op hroom) rfl (replaces [a, b, c] [_] rest _) h
  | sha3 =>
    obtain ⟨a, b, rest, rfl, -⟩ := exists_two (n := 0) hoperands
    have hfits := (hcovered ⟨a, b⟩ (List.mem_singleton_self _)).fits
    exact proceed_declared (sha3_eq hfits hroom) rfl (replaces [a, b] [_] rest _) h
  | reading value =>
    exact proceed_declared (push_eq hroom) rfl (replaces [] [_] items _) h
  | balance | extCodeSize | blockHash =>
    obtain ⟨a, rest, rfl, -⟩ := exists_top (n := 0) hoperands
    exact proceed_declared (lookup_eq _ hroom) rfl (replaces [a] [_] rest _) h
  | callDataLoad =>
    obtain ⟨a, rest, rfl, -⟩ := exists_top (n := 0) hoperands
    exact proceed_declared (callDataLoad_eq hroom) rfl (replaces [a] [_] rest _) h
  | callDataCopy | codeCopy =>
    obtain ⟨a, b, c, rest, rfl, -⟩ := exists_three (n := 0) hoperands
    have hwindow := hcovered ⟨a, c⟩ (List.mem_singleton_self _)
    exact proceed_declared (copy_eq _ hwindow) rfl (replaces [a, b, c] [] rest _) h
  | extCodeCopy =>
    obtain ⟨a, b, c, d, rest, rfl, -⟩ := exists_four (n := 0) hoperands
    have hwindow := hcovered ⟨b, d⟩ (List.mem_singleton_self _)
    exact proceed_declared (extCodeCopy_eq _ hwindow) rfl (replaces [a, b, c, d] [] rest _) h
  | pop =>
    obtain ⟨a, rest, rfl, -⟩ := exists_top (n := 0) hoperands
    exact proceed_declared discard_eq rfl (replaces [a] [] rest _) h
  | mload =>
    obtain ⟨a, rest, rfl, -⟩ := exists_top (n := 0) hoperands
    have hfits := (hcovered ⟨a, 32⟩ (List.mem_singleton_self _)).fits
    exact proceed_declared (mload_eq hfits hroom) rfl (replaces [a] [_] rest _) h
  | mstore =>
    obtain ⟨a, b, rest, rfl, -⟩ := exists_two (n := 0) hoperands
    have hwindow := hcovered ⟨a, 32⟩ (List.mem_singleton_self _)
    exact proceed_declared (mstore_eq hwindow) rfl (replaces [a, b] [] rest _) h
  | mstore8 =>
    obtain ⟨a, b, rest, rfl, -⟩ := exists_two (n := 0) hoperands
    have hwindow := hcovered ⟨a, 1⟩ (List.mem_singleton_self _)
    exact proceed_declared (mstore8_eq hwindow) rfl (replaces [a, b] [] rest _) h
  | sload =>
    obtain ⟨a, rest, rfl, -⟩ := exists_top (n := 0) hoperands
    simp only [perform, performLoad, pop_eq, push_eq (m := m) hroom, Option.some.injEq,
      Prod.mk.injEq] at h
    obtain ⟨rfl, rfl, -⟩ := h
    exact .goesOn rfl (replaces [a] [_] rest _)
  | sstore =>
    obtain ⟨a, b, rest, rfl, -⟩ := exists_two (n := 0) hoperands
    simp only [perform, takeThen, takeStore_eq, Option.some.injEq, Prod.mk.injEq] at h
    obtain ⟨rfl, rfl, -⟩ := h
    exact .goesOn rfl (replaces [a, b] [] rest _)
  | jump =>
    obtain ⟨a, rest, rfl, -⟩ := exists_top (n := 0) hoperands
    exact jump_declared rfl rfl (jumpsFrom_jump a rest m) (replaces [a] [] rest _) h
  | jumpIf =>
    obtain ⟨a, b, rest, rfl, -⟩ := exists_two (n := 0) hoperands
    exact jump_declared rfl rfl (jumpsFrom_jumpIf a b rest m) (replaces [a, b] [] rest _) h
  | jumpDest =>
    cases h
    exact .goesOn rfl (replaces [] [] items _)
  | push width =>
    exact proceed_declared (pushImmediate_eq width hroom) rfl (replaces [] [_] items _) h
  | dup n =>
    have hn : n ≤ items.length := hoperands
    have hpos : 0 < n := by
      apply Nat.pos_of_ne_zero
      rintro rfl
      exact hdup rfl
    have hfits : items.length < m.stack.limit := by
      have hheight : items.length - n + (n + 1) ≤ m.stack.limit := hroom
      omega
    have hitem : items[n - 1]? = some items[n - 1] := List.getElem?_eq_getElem (by omega)
    exact proceed_declared (dup_eq hitem hfits) rfl (replaces_dup n items _ _ hn) h
  | swap n =>
    have hn : n + 1 ≤ items.length := hoperands
    have htop : items[0]? = some items[0] := List.getElem?_eq_getElem (by omega)
    have hother : items[n]? = some items[n] := List.getElem?_eq_getElem hn
    exact proceed_declared (swap_eq htop hother) rfl (replaces_swap n items _ _ _ hn) h
  | log topics =>
    obtain ⟨a, b, tail, rfl, htail⟩ := exists_two hoperands
    obtain ⟨taken, rest, rfl, rfl⟩ := exists_append htail
    have hfits := (hcovered ⟨a, b⟩ (List.mem_singleton_self _)).fits
    simp only [perform, takeThen, takeLog_eq taken hfits, Option.some.injEq, Prod.mk.injEq] at h
    obtain ⟨rfl, rfl, -⟩ := h
    exact .goesOn rfl (replaces (a :: b :: taken) [] rest _)
  | create =>
    obtain ⟨a, b, c, rest, rfl, -⟩ := exists_three (n := 0) hoperands
    have hfits := (hcovered ⟨b, c⟩ (List.mem_singleton_self _)).fits
    simp only [perform, takeThen, takeCreation_eq hfits] at h
    split at h
    · cases h
    · next made created hcreate =>
      have hfinish := finishCreation_eq (m := m) made.exit made.created hroom
      exact proceed_declared hfinish rfl (replaces [a, b, c] [_] rest _) h
  | call scheme => exact call_declared items hsupplied h
  | ret =>
    obtain ⟨a, b, rest, rfl, -⟩ := exists_two (n := 0) hoperands
    have hfits := (hcovered ⟨a, b⟩ (List.mem_singleton_self _)).fits
    simp only [perform, takeThen, ret_eq hfits, Option.some.injEq, Prod.mk.injEq] at h
    obtain ⟨rfl, -, -⟩ := h
    exact .ends rfl
  | selfDestruct =>
    obtain ⟨a, rest, rfl, -⟩ := exists_top (n := 0) hoperands
    obtain ⟨marked, hmark⟩ := markDestroyed_ok context.address a.toAddress ex
    simp only [perform, takeThen, pop_eq, hmark, Option.some.injEq, Prod.mk.injEq] at h
    obtain ⟨rfl, -, -⟩ := h
    exact .ends rfl
  | invalid => cases hvalid

/-- An instruction that is supplied with what its operation declares does as declared, whatever the
frames come to that it enters. -/
theorem perform_declared {i : Instruction} (hvalid : (Operation.standard i).valid = true)
    (hdup : i ≠ .dup 0) (hsupplied : Supplied i m)
    (h : perform runner i context m ex = some (control, done, after)) :
    Declared (.standard i) m control done :=
  perform_items_declared m.stack.items hvalid hdup hsupplied h

lemma takeThen_none {α : Type} {x : Action Machine α}
    {k : α → Machine → Executor → Option (Control × Machine × Executor)}
    (h : takeThen x m ex k = none) : ∃ a taken, k a taken ex = none := by
  unfold takeThen at h
  cases hx : x m with
  | mk result taken =>
    cases result with
    | error f => simp [hx] at h
    | ok a =>
      rw [hx] at h
      exact ⟨a, taken, h⟩

/-- Only a frame that it enters can keep an instruction from ending. -/
lemma perform_none {i : Instruction} (h : perform runner i context m ex = none) :
    ∃ inner code started, runner inner code started = none := by
  cases i with
  | sstore | log | ret =>
    simp only [perform] at h
    obtain ⟨a, taken, hthen⟩ := takeThen_none h
    cases hthen
  | selfDestruct =>
    simp only [perform] at h
    obtain ⟨target, taken, hthen⟩ := takeThen_none h
    obtain ⟨marked, hmark⟩ := markDestroyed_ok context.address target.toAddress ex
    simp only [hmark] at hthen
    cases hthen
  | create =>
    simp only [perform] at h
    obtain ⟨⟨value, initCode⟩, taken, hthen⟩ := takeThen_none h
    simp only at hthen
    split at hthen
    · next hcreate =>
      unfold Executor.create at hcreate
      simp only at hcreate
      split at hcreate
      · cases hcreate
      · split at hcreate
        · next hrunner => exact ⟨_, _, _, hrunner⟩
        · cases hcreate
    · cases hthen
  | call scheme =>
    simp only [perform] at h
    obtain ⟨request, taken, hthen⟩ := takeThen_none h
    split at hthen
    · next hcall =>
      unfold Executor.call at hcall
      split at hcall
      · cases hcall
      · split at hcall
        · next hrunner => exact ⟨_, _, _, hrunner⟩
        · cases hcall
    · cases hthen
  | invalid =>
    simp only [perform] at h
    split at h <;> cases h
  | _ => cases h

lemma instruction_ne_dup_zero {op : Opcode} {i : Instruction} (h : op.instruction? = some i) :
    i ≠ .dup 0 := by
  rintro rfl
  have hrows : ∀ k : Fin 256, Opcode.decode (k.val / 16) (k.val % 16) ≠ some (.dup 0) := by
    decide +kernel
  exact hrows op.index h

/-- A task that is performed does as its operation declares. -/
lemma Performs.declared {c : Configuration} {task : Task} {grown : Machine} {ready : Executor}
    (hs : IsStandard c.executor.instructions) (hperforms : Performs c task grown ready)
    (h : perform runner task.operation.behaviour context grown ex = some (control, done, after)) :
    Declared task.operation grown control done := by
  obtain ⟨hvalid, hop, hstandard⟩ := task_of_standard hs hperforms.vetted.1
  rw [hstandard] at hvalid ⊢
  exact perform_declared hvalid (instruction_ne_dup_zero hop) (hperforms.supplied hs) h

lemma opensFrame_goesOn {i : Instruction} {control : Control}
    (h : Declared (.standard i) m control done) (hopens : opensFrame i = true) :
    control = .proceed := by
  cases h with
  | goesOn hhalts hstack => rfl
  | ends hhalts =>
    cases i with
    | create => cases hhalts
    | call scheme => cases scheme <;> cases hhalts
    | _ => cases hopens
  | astray hjump =>
    rw [standard_behaviour] at hjump
    cases i with
    | jump | jumpIf => cases hopens
    | _ => cases hjump

/-- What a standard set declares of the stack and of the flow is what its instructions do: once the
stack is checked and the memory has grown as needed, the items that the operation takes are replaced
by those that it puts back and no others, and only jumps can fault. Whatever comes of a nested call
or creation, the frame that made it goes on. -/
theorem operations_do_as_declared {s : InstructionSet} (hs : IsStandard s) {op : Opcode}
    (hvalid : (s.get op).valid = true) {m grown : Machine} {memoryEnd : Option Nat}
    (hcheck : (s.get op).checkStack m.stack = .ok ())
    (hneed : memoryNeed (s.get op) m.stack = .ok memoryEnd)
    (hgrow : Machine.grow memoryEnd m = (.ok (), grown))
    (runner : Runner) (context : Context) (ex : Executor) :
    (perform runner (s.get op).behaviour context grown ex = none →
      ∃ inner code started, runner inner code started = none) ∧
    ∀ control done after,
      perform runner (s.get op).behaviour context grown ex = some (control, done, after) →
      ((control = .proceed ∧ (s.get op).halts = false ∧
          done.stack.height = m.stack.height - (s.get op).pop + (s.get op).push ∧
          done.stack.items.drop (s.get op).push = m.stack.items.drop (s.get op).pop ∧
          done.stack.limit = m.stack.limit) ∨
        ((∃ halt, control = .halt halt) ∧ (s.get op).halts = true) ∨
        (control = .fault .invalidJump ∧ isJump (s.get op).behaviour = true)) ∧
      (opensFrame (s.get op).behaviour = true →
        control = .proceed ∧
          ((⟨op, s.get op, memoryEnd⟩ : Task).conclude control done).1 = none) := by
  obtain ⟨i, hop, hget⟩ := standard_get hs hvalid
  rw [hget] at hvalid hcheck hneed ⊢
  rw [standard_behaviour]
  refine ⟨perform_none, ?_⟩
  intro control done after hperform
  have hdeclared := perform_declared hvalid (instruction_ne_dup_zero hop)
    (supplied_of_grown hcheck hneed hgrow) hperform
  constructor
  · cases hdeclared with
    | goesOn hhalts hstack =>
      rw [← grow_stack hgrow]
      exact .inl ⟨rfl, hhalts, hstack.height, hstack.below, hstack.limit⟩
    | ends hhalts => exact .inr (.inl ⟨⟨_, rfl⟩, hhalts⟩)
    | astray hjump =>
      rw [standard_behaviour] at hjump
      exact .inr (.inr ⟨rfl, hjump⟩)
  · intro hopens
    have hgoes := opensFrame_goesOn hdeclared hopens
    subst hgoes
    refine ⟨rfl, ?_⟩
    cases hdeclared with
    | goesOn hhalts hstack =>
      simp only [Task.conclude, hhalts, Bool.false_eq_true, if_false]
      split <;> rfl

/-- A frame about to send value that its account does not have, with a stack as high as it may
be. -/
def overdrawingConfiguration : Configuration where
  context := ⟨0xa, 0xc, 0⟩
  machine := { Machine.start #[0xf1] #[] 7 4096 with stack := ⟨[0, 0xb, 1, 0, 0, 0, 32], 7⟩ }
  executor := (Executor.new (.ofAccounts ∅) .frontier .zero).reset 0xc 90000

theorem operations_do_as_declared_overdrawingConfiguration :
    ∃ grown done after,
      Machine.grow (some 32) overdrawingConfiguration.machine = (.ok (), grown) ∧
      perform (run 9) (.call .call) overdrawingConfiguration.context grown
        overdrawingConfiguration.executor = some (.proceed, done, after) ∧
      done.stack.height = 1 := by
  have hget : InstructionSet.frontier.get .call = .standard (.call .call) := by decide +kernel
  obtain ⟨grown, hgrow⟩ : ∃ grown,
      Machine.grow (some 32) overdrawingConfiguration.machine = (.ok (), grown) := ⟨_, rfl⟩
  have hends : ∃ result, perform (run 9) (.call .call) overdrawingConfiguration.context grown
      overdrawingConfiguration.executor = some result := by
    cases hgrow
    exact Option.isSome_iff_exists.mp (by decide +kernel)
  obtain ⟨⟨control, done, after⟩, hperform⟩ := hends
  have hinstruction : (InstructionSet.frontier.get .call).behaviour = .call .call := by
    rw [hget]
    rfl
  have hvalid : (InstructionSet.frontier.get .call).valid = true := by
    rw [hget]
    rfl
  obtain ⟨-, hdoes⟩ := operations_do_as_declared (.inl rfl) hvalid (by rw [hget]; rfl)
    (by rw [hget]; rfl) hgrow (run 9) overdrawingConfiguration.context
    overdrawingConfiguration.executor
  obtain ⟨heffect, hopens⟩ := hdoes control done after (by rw [hinstruction]; exact hperform)
  obtain ⟨rfl, -⟩ := hopens (by rw [hinstruction]; rfl)
  obtain ⟨-, -, hheight, -⟩ | ⟨⟨halt, hhalt⟩, -⟩ | ⟨hfault, -⟩ := heffect
  · refine ⟨grown, done, after, hgrow, hperform, ?_⟩
    rw [hget] at hheight
    exact hheight
  · cases hhalt
  · cases hfault

end ContractMachine.Proofs
