import ContractMachine.Proofs.InstructionTolls

/-!
# Overlays of instruction sets

An instruction set is what it holds for each opcode. An overlay holds the last override of an
opcode, and what its base holds where there is none. Sets are compared by the shapes that they
declare for the opcodes of one of them, so that an overlay has all opcodes of its base exactly if it
does not declare another shape for one of these.
-/

namespace ContractMachine.Proofs

variable {β φ : Type}

/-- What the last override of an opcode makes of it, if it is overridden. -/
def lastOverride? (overrides : List (Opcode × Operation β φ)) (op : Opcode) :
    Option (Operation β φ) :=
  ((overrides.filter fun entry => entry.1 = op).getLast?).map Prod.snd

/-- All that an operation declares apart from what it does. -/
def shape (o : Operation β φ) : Bool × Nat × Nat × Bool × Bool × Bool × Bool × Bool :=
  (o.valid, o.pop, o.push, o.footprint.isSome, o.halts, o.jumps, o.writes, o.reverts)

lemma sameShape_iff (a b : Operation β φ) : a.sameShape b = true ↔ shape a = shape b := by
  simp only [Operation.sameShape, shape, Bool.and_eq_true, beq_iff_eq, Prod.mk.injEq, and_assoc]

lemma mem_all (op : Opcode) : op ∈ Opcode.all := by
  have hop : (⟨UInt8.ofNat op.byte.toNat⟩ : Opcode) = op := by simp
  exact List.mem_map.mpr ⟨op.byte.toNat, List.mem_range.mpr op.byte.toNat_lt, hop⟩

lemma eq_of_get {s t : InstructionSet β φ} (h : ∀ op, s.get op = t.get op) : s = t := by
  obtain ⟨operations⟩ := s
  obtain ⟨operations'⟩ := t
  congr 1
  apply Vector.ext
  intro i hi
  have hindex : (⟨UInt8.ofNat i⟩ : Opcode).index.val = i := UInt8.toNat_ofNat_of_lt hi
  have hslot := h ⟨UInt8.ofNat i⟩
  simp only [get_eq, hindex] at hslot
  exact hslot

lemma lastOverride?_cons (entry : Opcode × Operation β φ) (rest : List (Opcode × Operation β φ))
    (op : Opcode) :
    lastOverride? (entry :: rest) op =
      (lastOverride? rest op).or (if entry.1 = op then some entry.2 else none) := by
  unfold lastOverride?
  by_cases hop : entry.1 = op
  · rw [List.filter_cons_of_pos (by simpa using hop), if_pos hop, List.getLast?_cons]
    cases (rest.filter fun entry => entry.1 = op).getLast? <;> rfl
  · rw [List.filter_cons_of_neg (by simpa using hop), if_neg hop, Option.or_none]

lemma get_overlay (base : InstructionSet β φ) (overrides : List (Opcode × Operation β φ))
    (op : Opcode) :
    (base.overlay overrides).get op = (lastOverride? overrides op).getD (base.get op) := by
  induction overrides generalizing base with
  | nil => rfl
  | cons entry rest ih =>
    have hrest := ih (base.replace entry.1 entry.2)
    rw [get_replace] at hrest
    rw [lastOverride?_cons]
    refine hrest.trans ?_
    cases lastOverride? rest op with
    | some o => rfl
    | none => by_cases hop : entry.1 = op <;> simp [hop]

/-- An opcode is overridden if it occurs among the overrides. -/
lemma lastOverride?_isSome_iff (overrides : List (Opcode × Operation β φ)) (op : Opcode) :
    (lastOverride? overrides op).isSome = true ↔ op ∈ overrides.map Prod.fst := by
  induction overrides with
  | nil => simp [lastOverride?]
  | cons entry rest ih =>
    rw [lastOverride?_cons, Option.isSome_or, Bool.or_eq_true, ih, List.map_cons, List.mem_cons]
    by_cases hop : entry.1 = op
    · simp [hop]
    · simp [hop, Ne.symm hop]

lemma isSupersetOf_iff (s t : InstructionSet β φ) :
    s.isSupersetOf t = true ↔
      ∀ op, (t.get op).valid = true → shape (s.get op) = shape (t.get op) := by
  simp only [InstructionSet.isSupersetOf, InstructionSet.validOpcodes, List.all_eq_true,
    List.mem_filter, mem_all, true_and, sameShape_iff]

lemma isSupersetOf_refl (s : InstructionSet β φ) : s.isSupersetOf s = true :=
  (isSupersetOf_iff s s).mpr fun _ _ => rfl

lemma isSupersetOf_trans {s t u : InstructionSet β φ} (hst : s.isSupersetOf t = true)
    (htu : t.isSupersetOf u = true) : s.isSupersetOf u = true := by
  rw [isSupersetOf_iff] at hst htu ⊢
  intro op hvalid
  have hsame := htu op hvalid
  -- The shape says whether the opcode is valid, so that it is one of the set in between too.
  have hbetween : (t.get op).valid = true := (congrArg Prod.fst hsame).trans hvalid
  exact (hst op hbetween).trans hsame

lemma overlay_isSupersetOf_iff (base : InstructionSet β φ)
    (overrides : List (Opcode × Operation β φ)) :
    (base.overlay overrides).isSupersetOf base = true ↔
      ∀ op ∈ overrides.map Prod.fst, (base.get op).valid = true →
        ∃ o, lastOverride? overrides op = some o ∧ shape o = shape (base.get op) := by
  rw [isSupersetOf_iff]
  constructor
  · intro h op hop hvalid
    obtain ⟨o, ho⟩ := Option.isSome_iff_exists.mp ((lastOverride?_isSome_iff overrides op).mpr hop)
    have hshape := h op hvalid
    rw [get_overlay, ho, Option.getD_some] at hshape
    exact ⟨o, ho, hshape⟩
  · intro h op hvalid
    rw [get_overlay]
    cases ho : lastOverride? overrides op with
    | none => rfl
    | some o =>
      have hop := (lastOverride?_isSome_iff overrides op).mp (by rw [ho]; rfl)
      obtain ⟨last, hlast, hsame⟩ := h op hop hvalid
      cases ho.symm.trans hlast
      exact hsame

/-- An overlay describes opcodes anew one after the other. It is the one set that holds the last
override of each opcode, and what its base holds for the others. Being a superset is reflexive and
transitive, and an overlay is a superset of its base exactly if the last override of each valid
opcode of the base that occurs among the overrides has the shape that it has there. -/
theorem overlays_and_supersets (base : InstructionSet β φ)
    (overrides : List (Opcode × Operation β φ)) :
    base.overlay overrides = overrides.foldl (fun s entry => s.replace entry.1 entry.2) base ∧
    (∀ s, s = base.overlay overrides ↔
      ∀ op, s.get op = (lastOverride? overrides op).getD (base.get op)) ∧
    (∀ s : InstructionSet β φ, s.isSupersetOf s = true) ∧
    (∀ s t u : InstructionSet β φ, s.isSupersetOf t = true → t.isSupersetOf u = true →
      s.isSupersetOf u = true) ∧
    ((base.overlay overrides).isSupersetOf base = true ↔
      ∀ op ∈ overrides.map Prod.fst, (base.get op).valid = true →
        ∃ o, lastOverride? overrides op = some o ∧ shape o = shape (base.get op)) := by
  refine ⟨rfl, ?_, isSupersetOf_refl, fun _ _ _ => isSupersetOf_trans,
    overlay_isSupersetOf_iff base overrides⟩
  intro s
  constructor
  · rintro rfl
    exact get_overlay base overrides
  · intro h
    apply eq_of_get
    intro op
    rw [h, get_overlay]

/-- An opcode that is overridden by another shape first, and in the end by its own. -/
def restoringOverrides : List (Opcode × Operation) :=
  [(.call, .undefined), (⟨0x0c⟩, .plain .stop 0 0), (.call, .standard (.call .callCode))]

theorem overlays_and_supersets_restoringOverrides :
    (InstructionSet.homestead.overlay restoringOverrides).get .call = .standard (.call .callCode) ∧
      (InstructionSet.homestead.overlay restoringOverrides).isSupersetOf .homestead = true ∧
      InstructionSet.homestead.isSupersetOf .frontier = true ∧
      (InstructionSet.homestead.overlay restoringOverrides).isSupersetOf .frontier = true := by
  obtain ⟨-, hslots, -, htrans, hrestored⟩ := overlays_and_supersets .homestead restoringOverrides
  obtain ⟨-, -, -, -, hadded⟩ :=
    overlays_and_supersets .frontier [(.delegateCall, .standard (.call .delegateCall))]
  have hlast : lastOverride? restoringOverrides .call = some (.standard (.call .callCode)) := rfl
  have hcall := (hslots _).mp rfl .call
  rw [hlast, Option.getD_some] at hcall
  have habove : (InstructionSet.homestead.overlay restoringOverrides).isSupersetOf .homestead =
      true := by
    apply hrestored.mpr
    intro op hop hvalid
    rw [InstructionSet.homestead, get_replace, InstructionSet.frontier, get_ofFn] at hvalid ⊢
    obtain rfl | rfl : op = .call ∨ op = ⟨0x0c⟩ := by
      simpa [restoringOverrides, or_comm] using hop
    · exact ⟨_, hlast, rfl⟩
    · cases hvalid
  -- The later fork is an overlay of the first release too.
  have hforks : InstructionSet.homestead.isSupersetOf .frontier = true := by
    apply hadded.mpr
    intro op hop hvalid
    obtain rfl : op = .delegateCall := by simpa using hop
    rw [InstructionSet.frontier, get_ofFn] at hvalid
    cases hvalid
  exact ⟨hcall, habove, hforks, htrans _ _ _ habove hforks⟩

end ContractMachine.Proofs
