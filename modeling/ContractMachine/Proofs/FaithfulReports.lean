import ContractMachine.CommandLine
import Mathlib.Data.List.TakeWhile
import Mathlib.Data.String.Basic

/-!
# What a run reports

A run goes through paths, files and tests with its counts and what it has printed so far. What it
has printed in the end is given by the files and the fixtures in them alone: the records of all
tests of the files up to the first that is no fixture, or up to the first place with a folder that
cannot be listed. Leaving out the records of passed tests changes neither the counts nor how the run
ends.
-/

namespace ContractMachine.Proofs

/-- What a run comes upon: a file with its path, or a place with a folder that cannot be listed. -/
inductive Finding
  | file (path : String) (found : FoundFile)
  | unlisted (path : String)

namespace Finding

def path : Finding → String
  | file path _ | unlisted path => path

/-- The fixture that a file holds, if it can be read and parsed. -/
def fixture? : Finding → Option Fixture
  | file _ found => found.text.bind Fixture.ofText?
  | unlisted _ => none

/-- The error where there is no fixture. -/
def error : Finding → RunError
  | file path _ => .unreadable path
  | unlisted path => .unlistable path

end Finding

/-- Files found at a place, each with its path. -/
def filesAt (path : String) (files : List FoundFile) : List Finding :=
  files.map fun file => .file (file.path path) file

/-- What is come upon at a place. -/
def foundAt (path : String) (place : FileTree) : List Finding :=
  place.fixtures?.elim [.unlisted path] (filesAt path)

/-- What is come upon at all places, one place after the other. -/
def foundAtAll (places : List (String × FileTree)) : List Finding :=
  places.flatMap fun place => foundAt place.1 place.2

/-- What is come upon at all paths, one path after the other. -/
def discovered (find? : String → Option FileTree) (paths : List String) : List Finding :=
  paths.flatMap fun path => (find? path).elim [] (foundAt path)

/-- The records of the tests of a fixture, in the order of their names. -/
def fixtureRecords (path : String) (fixture : Fixture) : List TestRecord :=
  fixture.toList.map fun entry => ⟨path, entry.1, entry.2.judge⟩

/-- The records of the tests of all files up to the first finding that is no fixture. -/
def recordsOf (findings : List Finding) : List TestRecord :=
  (findings.takeWhile fun finding => finding.fixture?.isSome).flatMap fun finding =>
    finding.fixture?.elim [] (fixtureRecords finding.path)

/-- The error of the first finding that is no fixture. -/
def obstacle? (findings : List Finding) : Option RunError :=
  (findings.find? fun finding => finding.fixture?.isNone).map Finding.error

/-- The number of tests that fail. -/
def failures (records : List TestRecord) : Nat := records.countP fun record => !record.passed

/-- The line with the number of tests that pass and the number of those that fail. -/
def countsText (records : List TestRecord) : String :=
  toString (records.countP TestRecord.passed) ++ " passed, " ++ toString (failures records) ++
    " failed"

/-- What keeps the run through these findings from succeeding. -/
def errorOf? (findings : List Finding) : Option RunError :=
  (obstacle? findings).or
    (if 0 < failures (recordsOf findings) then some (.failures (failures (recordsOf findings)))
    else none)

/-- The counts come after the records if all findings are fixtures. -/
def countsAfter (findings : List Finding) : List String :=
  if ∀ finding ∈ findings, finding.fixture?.isSome then [countsText (recordsOf findings)] else []

/-- All tests of a fixture pass. -/
def Passing (fixture : Fixture) : Prop :=
  ∀ (name : String) (test : StateTest), fixture[name]? = some test → test.judge = .ok ()

/-- All paths lead somewhere, the folders there can be listed, all files found in them are fixtures,
and all their tests pass. -/
structure Clean (find? : String → Option FileTree) (paths : List String) : Prop where
  found : ∀ path ∈ paths, (find? path).isSome
  listed : ∀ path ∈ paths, ∀ place, find? path = some place → place.fixtures?.isSome
  passing : ∀ path ∈ paths, ∀ place files, find? path = some place →
    place.fixtures? = some files → ∀ file ∈ files, ∃ fixture,
      file.text.bind Fixture.ofText? = some fixture ∧ Passing fixture

/-- Two runs end in the same way. The first prints the records of the tests of all files up to the
first finding that is no fixture, and the second those of failed tests among them. -/
structure Faithful (find? : String → Option FileTree) (paths : List String)
    (plain flagged : ContractMachine.Outcome) : Prop where
  status : flagged.status = plain.status
  error : flagged.error = plain.error
  success : plain.status = 0 ↔ Clean find? paths
  missing : (∃ path ∈ paths, find? path = none) →
    plain.lines = some [] ∧ flagged.lines = some []
  records : (∀ path ∈ paths, (find? path).isSome) →
    plain.lines = some ((recordsOf (discovered find? paths)).map TestRecord.text ++
      countsAfter (discovered find? paths)) ∧
    flagged.lines = some (((recordsOf (discovered find? paths)).filter fun record =>
      !record.passed).map TestRecord.text ++ countsAfter (discovered find? paths))

/-- The second report counts these records too, and has printed them, or the failed ones only. -/
structure Logs (failedOnly : Bool) (records : List TestRecord) (r r' : Report) : Prop where
  passed : r'.passed = r.passed + records.countP TestRecord.passed
  failed : r'.failed = r.failed + failures records
  printed : r'.printed.toList =
    r.printed.toList ++ records.filter fun record => !failedOnly || !record.passed

variable {find? : String → Option FileTree} {failedOnly : Bool} {r r' r'' : Report}
  {records later : List TestRecord}

/-! ### The loops -/

lemma failures_append (records later : List TestRecord) :
    failures (records ++ later) = failures records + failures later :=
  List.countP_append

lemma Logs.refl (failedOnly : Bool) (r : Report) : Logs failedOnly [] r r where
  passed := rfl
  failed := rfl
  printed := (List.append_nil _).symm

lemma Logs.trans (h : Logs failedOnly records r r') (h' : Logs failedOnly later r' r'') :
    Logs failedOnly (records ++ later) r r'' where
  passed := by rw [h'.passed, h.passed, List.countP_append, Nat.add_assoc]
  failed := by rw [h'.failed, h.failed, failures_append, Nat.add_assoc]
  printed := by rw [h'.printed, h.printed, List.filter_append, List.append_assoc]

lemma Logs.lines (h : Logs failedOnly records .empty r) :
    r.lines =
      (records.filter fun record => !failedOnly || !record.passed).map TestRecord.text := by
  rw [Report.lines, h.printed]
  rfl

lemma Logs.failed_eq (h : Logs failedOnly records .empty r) : r.failed = failures records := by
  rw [h.failed]
  exact Nat.zero_add _

lemma Logs.summary (h : Logs failedOnly records .empty r) : r.summary = countsText records := by
  have hpassed : r.passed = records.countP TestRecord.passed := by
    rw [h.passed]
    exact Nat.zero_add _
  rw [Report.summary, hpassed, h.failed_eq]
  rfl

lemma note_logs (failedOnly : Bool) (r : Report) (record : TestRecord) :
    Logs failedOnly [record] r (r.note failedOnly record) := by
  obtain ⟨path, name, verdict⟩ := record
  cases verdict with
  | error mismatch =>
    constructor
    · rfl
    · rfl
    · simp [Report.note, TestRecord.passed]
  | ok =>
    constructor
    · rfl
    · rfl
    · cases failedOnly <;> simp [Report.note, TestRecord.passed]

lemma noteTests_logs (failedOnly : Bool) (path : String) (verdicts : List (String × Verdict))
    (r : Report) :
    Logs failedOnly (verdicts.map fun entry => ⟨path, entry.1, entry.2⟩) r
      (Report.noteTests failedOnly path verdicts r) := by
  induction verdicts generalizing r with
  | nil => exact .refl failedOnly r
  | cons entry rest ih => exact (note_logs failedOnly r _).trans (ih _)

lemma recordsOf_cons (finding : Finding) (rest : List Finding) :
    recordsOf (finding :: rest) =
      finding.fixture?.elim [] fun fixture =>
        fixtureRecords finding.path fixture ++ recordsOf rest := by
  cases hfixture : finding.fixture? <;> simp [recordsOf, hfixture]

lemma obstacle?_cons (finding : Finding) (rest : List Finding) :
    obstacle? (finding :: rest) =
      finding.fixture?.elim (some finding.error) fun _ => obstacle? rest := by
  cases hfixture : finding.fixture? <;> simp [obstacle?, hfixture]

lemma runFiles_logs (failedOnly : Bool) (place : String) (files : List FoundFile) (r : Report) :
    (Report.runFiles failedOnly place files r).1 = obstacle? (filesAt place files) ∧
      Logs failedOnly (recordsOf (filesAt place files)) r
        (Report.runFiles failedOnly place files r).2 := by
  induction files generalizing r with
  | nil => exact ⟨rfl, .refl failedOnly r⟩
  | cons file rest ih =>
    have hverdicts : file.verdicts? =
        (Finding.file (file.path place) file).fixture?.map Fixture.verdicts := rfl
    unfold Report.runFiles filesAt
    rw [hverdicts, List.map_cons, obstacle?_cons, recordsOf_cons]
    cases (Finding.file (file.path place) file).fixture? with
    | none => exact ⟨rfl, .refl failedOnly r⟩
    | some fixture =>
      have htests := noteTests_logs failedOnly (file.path place) fixture.verdicts r
      rw [Fixture.verdicts, List.map_map] at htests
      obtain ⟨herror, hrest⟩ :=
        ih (Report.noteTests failedOnly (file.path place) fixture.verdicts r)
      exact ⟨herror, htests.trans hrest⟩

lemma obstacle?_eq_none (findings : List Finding) :
    obstacle? findings = none ↔ ∀ finding ∈ findings, finding.fixture?.isSome := by
  simp [obstacle?, Option.isSome_iff_ne_none]

lemma obstacle?_append (findings later : List Finding) :
    obstacle? (findings ++ later) = (obstacle? findings).or (obstacle? later) := by
  simp [obstacle?, List.find?_append, Option.map_or]

/-- What comes after a finding that is no fixture gives no records. -/
lemma recordsOf_append (findings later : List Finding) :
    recordsOf (findings ++ later) =
      recordsOf findings ++ if obstacle? findings = none then recordsOf later else [] := by
  induction findings with
  | nil => rfl
  | cons finding rest ih =>
    rw [List.cons_append, recordsOf_cons, recordsOf_cons, obstacle?_cons, ih]
    cases finding.fixture? with
    | none => rfl
    | some fixture => exact (List.append_assoc _ _ _).symm

lemma runPlaces_logs (failedOnly : Bool) (places : List (String × FileTree)) (r : Report) :
    (Report.runPlaces failedOnly places r).1 = obstacle? (foundAtAll places) ∧
      Logs failedOnly (recordsOf (foundAtAll places)) r
        (Report.runPlaces failedOnly places r).2 := by
  induction places generalizing r with
  | nil => exact ⟨rfl, .refl failedOnly r⟩
  | cons entry rest ih =>
    obtain ⟨path, tree⟩ := entry
    unfold Report.runPlaces foundAtAll
    rw [List.flatMap_cons, obstacle?_append, recordsOf_append, foundAt]
    cases tree.fixtures? with
    | none => exact ⟨rfl, .refl failedOnly r⟩
    | some files =>
      obtain ⟨herror, hfiles⟩ := runFiles_logs failedOnly path files r
      simp only [Option.elim_some, ← herror]
      generalize Report.runFiles failedOnly path files r = run at hfiles
      obtain ⟨stop, between⟩ := run
      cases stop with
      | some error => simpa using hfiles
      | none =>
        obtain ⟨herror, hrest⟩ := ih between
        exact ⟨herror, hfiles.trans hrest⟩

lemma placesAt_cases (find? : String → Option FileTree) (paths : List String) :
    (∃ places, placesAt find? paths = .ok places ∧ (∀ path ∈ paths, (find? path).isSome) ∧
      foundAtAll places = discovered find? paths) ∨
    ∃ path ∈ paths, find? path = none ∧ placesAt find? paths = .error (.notFound path) := by
  induction paths with
  | nil => exact .inl ⟨[], rfl, nofun, rfl⟩
  | cons path rest ih =>
    unfold placesAt
    cases hplace : find? path with
    | none => exact .inr ⟨path, List.mem_cons_self, hplace, rfl⟩
    | some tree =>
      obtain ⟨places, hplaces, hfound, hfiles⟩ | ⟨missing, hmem, hmissing, herror⟩ := ih
      · refine .inl ⟨(path, tree) :: places, by rw [hplaces]; rfl, ?_, ?_⟩
        · exact List.forall_mem_cons.mpr ⟨by rw [hplace]; rfl, hfound⟩
        · unfold foundAtAll discovered at hfiles ⊢
          rw [List.flatMap_cons, hfiles, List.flatMap_cons, hplace]
          rfl
      · exact .inr ⟨missing, List.mem_cons_of_mem _ hmem, hmissing, by rw [herror]; rfl⟩

lemma found_iff {paths : List String} :
    (∀ path ∈ paths, (find? path).isSome) ↔ ¬∃ path ∈ paths, find? path = none := by
  simp [Option.isSome_iff_ne_none]

/-- A run that finds all paths, in closed form. -/
lemma run_found {paths : List String} (failedOnly : Bool)
    (hfound : ∀ path ∈ paths, (find? path).isSome) :
    Invocation.run find? ⟨failedOnly, paths⟩ =
      ⟨if errorOf? (discovered find? paths) = none then 0 else 1,
        some (((recordsOf (discovered find? paths)).filter fun record =>
          !failedOnly || !record.passed).map TestRecord.text ++
          countsAfter (discovered find? paths)),
        errorOf? (discovered find? paths)⟩ := by
  obtain ⟨places, hplaces, -, hfiles⟩ | ⟨missing, hmem, hmissing, -⟩ := placesAt_cases find? paths
  · obtain ⟨herror, hlogs⟩ := runPlaces_logs failedOnly places .empty
    unfold Invocation.run
    simp only [hplaces]
    rw [hfiles] at herror hlogs
    generalize discovered find? paths = findings at herror hlogs
    generalize Report.runPlaces failedOnly places .empty = run at herror hlogs
    obtain ⟨stop, report⟩ := run
    dsimp only at herror hlogs ⊢
    simp only [errorOf?, countsAfter, ← obstacle?_eq_none, ← herror]
    cases stop with
    | some error => simp [Outcome.stopped, hlogs.lines]
    | none =>
      simp only [Outcome.finished, hlogs.lines, hlogs.summary, hlogs.failed_eq]
      by_cases hfailures : 0 < failures (recordsOf findings) <;> simp [Outcome.stopped, hfailures]
  · exact absurd ⟨missing, hmem, hmissing⟩ (found_iff.mp hfound)

lemma run_missing {paths : List String} (hmissing : ∃ path ∈ paths, find? path = none) :
    ∃ path ∈ paths, find? path = none ∧ ∀ failedOnly,
      Invocation.run find? ⟨failedOnly, paths⟩ = ⟨1, some [], some (.notFound path)⟩ := by
  obtain ⟨places, -, hfound, -⟩ | ⟨missing, hmem, hnone, herror⟩ := placesAt_cases find? paths
  · exact absurd hmissing (found_iff.mp hfound)
  · refine ⟨missing, hmem, hnone, fun failedOnly => ?_⟩
    unfold Invocation.run
    simp only [herror]
    rfl

lemma mem_fixtureRecords (path : String) (fixture : Fixture) (record : TestRecord) :
    record ∈ fixtureRecords path fixture ↔
      record.path = path ∧
        ∃ test, fixture[record.name]? = some test ∧ record.verdict = test.judge := by
  simp only [fixtureRecords, List.mem_map, Prod.exists,
    Std.ExtTreeMap.mem_toList_iff_getElem?_eq_some]
  constructor
  · rintro ⟨name, test, htest, rfl⟩
    exact ⟨rfl, test, htest, rfl⟩
  · rintro ⟨rfl, test, htest, hverdict⟩
    refine ⟨record.name, test, htest, ?_⟩
    rw [← hverdict]

/-- The records of a file are in the order of the names of the tests, one for each name. -/
lemma fixtureRecords_ordered (path : String) (fixture : Fixture) :
    (fixtureRecords path fixture).Pairwise fun a b => a.name < b.name :=
  List.pairwise_map.mpr (Std.ExtTreeMap.ordered_keys_toList.imp compare_lt_iff_lt.mp)

lemma passed_iff (record : TestRecord) : record.passed = true ↔ record.verdict = .ok () := by
  obtain ⟨path, name, verdict⟩ := record
  cases verdict <;> simp [TestRecord.passed]

lemma text_begins (record : TestRecord) :
    ∃ rest, record.text = (if record.passed then "PASS " else "FAIL ") ++ rest := by
  obtain ⟨path, name, verdict⟩ := record
  cases verdict with
  | ok =>
    refine ⟨path ++ "::" ++ name, ?_⟩
    simp only [TestRecord.text, TestRecord.passed, if_true, String.append_assoc]
  | error mismatch =>
    refine ⟨path ++ "::" ++ name ++ ": " ++ mismatch.text, ?_⟩
    simp only [TestRecord.text, TestRecord.passed, Bool.false_eq_true, if_false,
      String.append_assoc]

lemma mem_recordsOf {findings : List Finding} (h : obstacle? findings = none)
    (record : TestRecord) :
    record ∈ recordsOf findings ↔
      ∃ finding ∈ findings, ∃ fixture, finding.fixture? = some fixture ∧
        record ∈ fixtureRecords finding.path fixture := by
  rw [obstacle?_eq_none] at h
  rw [recordsOf, List.takeWhile_eq_self_iff.mpr h, List.mem_flatMap]
  refine exists_congr fun finding => and_congr_right fun hfinding => ?_
  obtain ⟨fixture, hfixture⟩ := Option.isSome_iff_exists.mp (h finding hfinding)
  rw [hfixture]
  simp

lemma failures_eq_zero_iff {findings : List Finding} (h : obstacle? findings = none) :
    failures (recordsOf findings) = 0 ↔
      ∀ finding ∈ findings, ∀ fixture, finding.fixture? = some fixture → Passing fixture := by
  rw [failures, List.countP_eq_zero]
  constructor
  · intro hpassed finding hfinding fixture hfixture name test htest
    have hrecord : (⟨finding.path, name, test.judge⟩ : TestRecord) ∈ recordsOf findings :=
      (mem_recordsOf h _).mpr ⟨finding, hfinding, fixture, hfixture,
        (mem_fixtureRecords _ _ _).mpr ⟨rfl, test, htest, rfl⟩⟩
    exact (passed_iff _).mp (by simpa using hpassed _ hrecord)
  · intro hall record hrecord
    obtain ⟨finding, hfinding, fixture, hfixture, hmem⟩ := (mem_recordsOf h record).mp hrecord
    obtain ⟨-, test, htest, hverdict⟩ := (mem_fixtureRecords _ _ _).mp hmem
    rw [hall finding hfinding fixture hfixture record.name test htest, ← passed_iff] at hverdict
    simp [hverdict]

/-- Nothing keeps a run from succeeding if all findings are fixtures and all their tests pass. -/
lemma errorOf?_eq_none (findings : List Finding) :
    errorOf? findings = none ↔
      ∀ finding ∈ findings, ∃ fixture, finding.fixture? = some fixture ∧ Passing fixture := by
  rw [errorOf?, Option.or_eq_none_iff]
  constructor
  · rintro ⟨hreadable, hfailures⟩ finding hfinding
    obtain ⟨fixture, hfixture⟩ :=
      Option.isSome_iff_exists.mp ((obstacle?_eq_none findings).mp hreadable finding hfinding)
    have hzero : failures (recordsOf findings) = 0 := by simpa using hfailures
    exact ⟨fixture, hfixture,
      (failures_eq_zero_iff hreadable).mp hzero finding hfinding fixture hfixture⟩
  · intro hall
    have hreadable : obstacle? findings = none := by
      rw [obstacle?_eq_none]
      intro finding hfinding
      obtain ⟨fixture, hfixture, -⟩ := hall finding hfinding
      rw [hfixture]
      rfl
    have hzero : failures (recordsOf findings) = 0 := by
      refine (failures_eq_zero_iff hreadable).mpr fun finding hfinding fixture hfixture => ?_
      obtain ⟨other, hother, hpassing⟩ := hall finding hfinding
      rw [hfixture] at hother
      cases hother
      exact hpassing
    exact ⟨hreadable, if_neg (by omega)⟩

lemma mem_discovered {paths : List String} (finding : Finding) :
    finding ∈ discovered find? paths ↔
      ∃ path ∈ paths, ∃ place, find? path = some place ∧ finding ∈ foundAt path place := by
  rw [discovered, List.mem_flatMap]
  refine exists_congr fun path => and_congr_right fun _ => ?_
  cases find? path <;> simp

/-- At a place where all folders can be listed, every file is come upon with its path. -/
lemma foundAt_eq {place : FileTree} {files : List FoundFile} (path : String)
    (h : place.fixtures? = some files) : foundAt path place = filesAt path files := by
  rw [foundAt, h]
  rfl

lemma foundAt_unlisted {place : FileTree} (path : String) (h : place.fixtures? = none) :
    foundAt path place = [.unlisted path] := by
  rw [foundAt, h]
  rfl

lemma clean_iff {paths : List String} (hfound : ∀ path ∈ paths, (find? path).isSome) :
    errorOf? (discovered find? paths) = none ↔ Clean find? paths := by
  rw [errorOf?_eq_none]
  constructor
  · intro hall
    refine ⟨hfound, ?_, ?_⟩
    · intro path hpath place hplace
      rw [Option.isSome_iff_ne_none]
      intro hnone
      have hmem : Finding.unlisted path ∈ discovered find? paths := by
        rw [mem_discovered]
        refine ⟨path, hpath, place, hplace, ?_⟩
        rw [foundAt_unlisted path hnone]
        exact List.mem_singleton_self _
      obtain ⟨fixture, hfixture, -⟩ := hall _ hmem
      cases hfixture
    · intro path hpath place files hplace hfiles file hfile
      refine hall (.file (file.path path) file) ((mem_discovered _).mpr ⟨path, hpath, place,
        hplace, ?_⟩)
      rw [foundAt_eq path hfiles]
      exact List.mem_map_of_mem hfile
  · intro hclean finding hfinding
    obtain ⟨path, hpath, place, hplace, hmem⟩ := (mem_discovered finding).mp hfinding
    obtain ⟨files, hfiles⟩ := Option.isSome_iff_exists.mp (hclean.listed path hpath place hplace)
    rw [foundAt_eq path hfiles] at hmem
    obtain ⟨file, hfile, rfl⟩ := List.mem_map.mp hmem
    exact hclean.passing path hpath place files hplace hfiles file hfile

/-! ### Arguments -/

variable {letters : List Char} {arguments plain : List String} {paths : List String}
  {asked : Bool}

/-- The letter `f` stays once it has come. -/
lemma letters?_asked (h : Invocation.letters? asked letters = some failedOnly)
    (hasked : asked = true) : failedOnly = true := by
  fun_induction Invocation.letters? asked letters with
  | case1 asked => rwa [← Option.some.inj h]
  | case2 asked rest ih => exact ih h hasked
  | case3 => cases h
  | case4 => contradiction
  | case5 => cases h

/-- Letters without an `f` mean the same after one. -/
lemma letters?_unasked (h : Invocation.letters? asked letters = some false) :
    Invocation.letters? true letters = some true := by
  fun_induction Invocation.letters? asked letters with
  | case1 => rfl
  | case2 asked rest ih => exact ih h
  | case3 => cases h
  | case4 asked rest hasked => cases letters?_asked h rfl
  | case5 => cases h

lemma options?_asked (h : Invocation.options? asked letters = some failedOnly)
    (hasked : asked = true) : failedOnly = true := by
  unfold Invocation.options? at h
  split at h
  · exact letters?_asked h hasked
  · cases h

lemma options?_unasked (h : Invocation.options? asked letters = some false) :
    Invocation.options? true letters = some true := by
  unfold Invocation.options? at h ⊢
  split at h
  · exact letters?_unasked h
  · cases h

lemma parseAfter?_asked
    (h : Invocation.parseAfter? asked arguments = some ⟨failedOnly, paths⟩)
    (hasked : asked = true) : failedOnly = true := by
  fun_induction Invocation.parseAfter? asked arguments with
  | case1 => cases h
  | case2 asked rest path paths hpaths =>
    cases h
    exact hasked
  | case3 => cases h
  | case4 asked rest _ ih => exact ih h hasked
  | case5 asked argument rest _ _ later hoptions ih => exact ih h (options?_asked hoptions hasked)
  | case6 => cases h

/-- Arguments that do not ask for `-f` mean the same after it, apart from what it asks for. -/
lemma parseAfter?_unasked
    (h : Invocation.parseAfter? asked arguments = some ⟨false, paths⟩) :
    Invocation.parseAfter? true arguments = some ⟨true, paths⟩ := by
  fun_induction Invocation.parseAfter? asked arguments with
  | case1 => cases h
  | case2 asked rest path paths hpaths =>
    cases h
    simp [Invocation.parseAfter?, hpaths]
  | case3 => cases h
  | case4 asked rest hstate ih =>
    rw [Invocation.parseAfter?, if_neg hstate, if_pos rfl]
    exact ih h
  | case5 asked argument rest hstate hverbose later hoptions ih =>
    have hlater : later = false := by
      cases later with
      | false => rfl
      | true => cases parseAfter?_asked h rfl
    rw [hlater] at hoptions
    rw [Invocation.parseAfter?, if_neg hstate, if_neg hverbose, options?_unasked hoptions]
    exact ih h
  | case6 => cases h

/-- Every list of arguments can be given with `-f` in front. -/
lemma parse?_flagged (h : Invocation.parse? plain = some ⟨false, paths⟩) :
    Invocation.parse? ("-f" :: plain) = some ⟨true, paths⟩ :=
  parseAfter?_unasked h

lemma runs_are_faithful (find? : String → Option FileTree) (paths : List String) :
    Faithful find? paths (Invocation.run find? ⟨false, paths⟩)
      (Invocation.run find? ⟨true, paths⟩) := by
  by_cases hfound : ∀ path ∈ paths, (find? path).isSome
  · rw [run_found false hfound, run_found true hfound]
    refine ⟨rfl, rfl, ?_, ?_, ?_⟩
    · rw [← clean_iff hfound]
      simp
    · exact fun hmissing => absurd hmissing (found_iff.mp hfound)
    · intro _
      simp
  · obtain ⟨path, hmem, hnone, hrun⟩ := run_missing (not_not.mp (found_iff.not.mp hfound))
    rw [hrun false, hrun true]
    refine ⟨rfl, rfl, ?_, fun _ => ⟨rfl, rfl⟩, fun hall => absurd hall hfound⟩
    exact ⟨nofun, fun hclean => absurd hclean.found hfound⟩

lemma execute_eq {failedOnly : Bool}
    (h : Invocation.parse? arguments = some ⟨failedOnly, paths⟩) :
    execute find? arguments = Invocation.run find? ⟨failedOnly, paths⟩ := by
  rw [execute, h]

/-- The test of a message that is rejected for its nonce, where this rejection is expected. -/
def rejectedTest (name rejection : String) : String :=
  "\"" ++ name ++ "\":\x7b\"fork\":\"Frontier\",\"pre\":\x7b\x7d,\"expect\":\x7b\"rejected\":\"" ++
    rejection ++ "\"\x7d,\"message\":\x7b\"from\":\"0000000000000000000000000000000000000000\"," ++
    "\"gasLimit\":1,\"nonce\":7\x7d\x7d"

/-- A fixture with a test that passes, and one that fails and whose name comes first, beside a
folder that cannot be listed. -/
def twoTests (path : String) : Option FileTree :=
  if path = "tests" then
    some (.file (some ("\x7b" ++ rejectedTest "b" "InvalidNonce" ++ "," ++
      rejectedTest "a" "NonceMax" ++ "\x7d")))
  else if path = "hidden" then some (.folder false [])
  else none

end ContractMachine.Proofs
