import ContractMachine.FileTree.Fixtures
import Mathlib

/-!
# What is found in a tree of files

A place is a file or a folder. A file is the one fixture of its place. In a folder the fixtures are
the files below it whose names end in the extension, none of them twice, and in the order of their
paths, unless a folder there cannot be listed. Nothing depends on the order in which folders list
their entries.
-/

namespace ContractMachine.Proofs

/-- The names lead from a place to another one, from each folder to one of its entries. -/
inductive Contains : FileTree → List String → FileTree → Prop
  | here (place : FileTree) : Contains place [] place
  | inside {readable : Bool} {entries : List (String × FileTree)} {name : String}
    {tree place : FileTree} {names : List String} (hentry : (name, tree) ∈ entries)
    (hinside : Contains tree names place) :
    Contains (.folder readable entries) (name :: names) place

/-- A name that an entry can have. -/
def ProperName (name : String) : Prop := name ≠ "" ∧ '/' ∉ name.toList

instance (name : String) : Decidable (ProperName name) := inferInstanceAs (Decidable (_ ∧ _))

/-- Every folder lists each of its entries once, by its name. -/
structure Listed (tree : FileTree) : Prop where
  once : ∀ {names readable entries}, Contains tree names (.folder readable entries) →
    (entries.map Prod.fst).Nodup
  named : ∀ {names place}, Contains tree names place → ∀ name ∈ names, ProperName name

/-- Another listing of the same tree, where folders list their entries in another order. -/
inductive Relisted : FileTree → FileTree → Prop
  | refl (tree : FileTree) : Relisted tree tree
  | reorder {readable : Bool} {entries entries' : List (String × FileTree)}
    (hperm : entries.Perm entries') :
    Relisted (.folder readable entries) (.folder readable entries')
  | entry {readable : Bool} {before after : List (String × FileTree)} (name : String)
    {tree tree' : FileTree} (h : Relisted tree tree') :
    Relisted (.folder readable (before ++ (name, tree) :: after))
      (.folder readable (before ++ (name, tree') :: after))
  | trans {tree tree' tree'' : FileTree} (h : Relisted tree tree') (h' : Relisted tree' tree'') :
    Relisted tree tree''

/-- What stands after the last dot of a name, where something stands before that dot. -/
def HasExtension (name extension : String) : Prop :=
  '.' ∉ extension.toList ∧ ∃ stem, stem ≠ "" ∧ name = stem ++ "." ++ extension

/-- The names lead from a folder to a file whose extension makes it a fixture. -/
def LeadsToFixture (names : List String) : Prop :=
  ∃ name, names.getLast? = some name ∧ HasExtension name "json"

/-- A tree is a file, or a folder of smaller trees. -/
theorem treeInduction {motive : FileTree → Prop} (file : ∀ text, motive (.file text))
    (folder : ∀ readable entries, (∀ name tree, (name, tree) ∈ entries → motive tree) →
      motive (.folder readable entries))
    (tree : FileTree) : motive tree := by
  cases tree with
  | file text => exact file text
  | folder readable entries =>
    refine folder readable entries fun name tree hentry => ?_
    have hsize := List.sizeOf_lt_of_mem hentry
    exact treeInduction file folder tree
termination_by sizeOf tree
decreasing_by
  subst_vars
  simp only [FileTree.folder.sizeOf_spec, Prod.mk.sizeOf_spec] at hsize ⊢
  omega

lemma hasFixtureName_iff (name : String) :
    FileTree.hasFixtureName name = true ↔ HasExtension name "json" := by
  have hends : name.endsWith ".json" = true ↔ ∃ stem, stem ++ ".json" = name := by
    rw [String.endsWith_eq_endsWith_toSlice, String.Slice.endsWith_string_iff, String.copy_toSlice]
    constructor
    · rintro ⟨stem, hstem⟩
      refine ⟨String.ofList stem, String.toList_inj.mp ?_⟩
      rw [String.toList_append, String.toList_ofList, hstem]
    · rintro ⟨stem, rfl⟩
      exact ⟨stem.toList, String.toList_append.symm⟩
  simp only [FileTree.hasFixtureName, Bool.and_eq_true, hends, bne_iff_ne]
  constructor
  · rintro ⟨⟨stem, rfl⟩, hdot⟩
    refine ⟨by decide, stem, ?_, ?_⟩
    · rintro rfl
      exact hdot rfl
    · rw [String.append_assoc]
      rfl
  · rintro ⟨-, stem, hstem, rfl⟩
    rw [String.append_assoc]
    refine ⟨⟨stem, rfl⟩, fun hdot => hstem ?_⟩
    have hlist := congrArg String.toList hdot
    rw [String.toList_append] at hlist
    exact String.toList_eq_nil_iff.mp (List.append_left_eq_self.mp hlist)

lemma namesLE_iff (as bs : List String) :
    FoundFile.namesLE as bs = true ↔ as = bs ∨ List.Lex (· < ·) as bs := by
  induction as generalizing bs with
  | nil => cases bs <;> simp [FoundFile.namesLE]
  | cons a as ih =>
    cases bs with
    | nil => simp [FoundFile.namesLE]
    | cons b bs =>
      by_cases hab : a = b
      · subst hab
        simp only [FoundFile.namesLE, if_true, ih, List.cons.injEq, true_and,
          List.cons_lex_cons_iff, lt_irrefl, false_or]
      · simp only [FoundFile.namesLE, hab, if_false, decide_eq_true_eq, List.cons.injEq, false_and,
          List.cons_lex_cons_iff, or_false, false_or]

lemma namesLE_trans {as bs cs : List String} (h : FoundFile.namesLE as bs = true)
    (h' : FoundFile.namesLE bs cs = true) : FoundFile.namesLE as cs = true := by
  rw [namesLE_iff] at h h' ⊢
  obtain rfl | hlt := h
  · exact h'
  · obtain rfl | hlt' := h'
    · exact .inr hlt
    · exact .inr (List.lex_trans String.lt_trans hlt hlt')

lemma namesLE_total (as bs : List String) :
    FoundFile.namesLE as bs = true ∨ FoundFile.namesLE bs as = true := by
  induction as generalizing bs with
  | nil => exact .inl rfl
  | cons a as ih =>
    cases bs with
    | nil => exact .inr rfl
    | cons b bs =>
      by_cases hab : a = b
      · subst hab
        simpa [FoundFile.namesLE] using ih bs
      · have hlt : a < b ∨ b < a := lt_or_gt_of_ne hab
        simpa [FoundFile.namesLE, hab, Ne.symm hab] using hlt

lemma mem_sorted (f : FoundFile) (files : List FoundFile) :
    f ∈ FoundFile.sorted files ↔ f ∈ files :=
  List.mem_mergeSort

/-- Files with different names are sorted strictly. -/
lemma sorted_strict {files : List FoundFile} (h : (files.map FoundFile.names).Nodup) :
    (FoundFile.sorted files).Pairwise fun a b => List.Lex (· < ·) a.names b.names := by
  have hle : (FoundFile.sorted files).Pairwise fun a b =>
      FoundFile.namesLE a.names b.names = true := by
    apply List.pairwise_mergeSort
    · exact fun _ _ _ => namesLE_trans
    · exact fun a b => by simpa using namesLE_total a.names b.names
  have hperm : (FoundFile.sorted files).Perm files := List.mergeSort_perm files _
  have hdistinct : (FoundFile.sorted files).Pairwise fun a b => a.names ≠ b.names :=
    List.pairwise_map.mp ((hperm.map FoundFile.names).nodup_iff.mpr h)
  exact (hle.and hdistinct).imp fun ⟨hle, hne⟩ => ((namesLE_iff _ _).mp hle).resolve_left hne

/-- Files in strict order are given by which files they are. -/
lemma eq_of_strict {files files' : List FoundFile}
    (h : files.Pairwise fun a b => List.Lex (· < ·) a.names b.names)
    (h' : files'.Pairwise fun a b => List.Lex (· < ·) a.names b.names)
    (hsame : ∀ f, f ∈ files ↔ f ∈ files') : files = files' := by
  have hirrefl (names : List String) : ¬List.Lex (· < ·) names names :=
    List.lex_irrefl String.lt_irrefl names
  have hne {a b : FoundFile} (hlt : List.Lex (· < ·) a.names b.names) : a ≠ b := by
    rintro rfl
    exact hirrefl _ hlt
  refine List.Perm.eq_of_pairwise (fun a b _ _ hab hba => ?_) h h'
    ((List.perm_ext_iff_of_nodup (h.imp hne) (h'.imp hne)).mpr hsame)
  have hcycle : List.Lex (· < ·) a.names a.names := List.lex_trans String.lt_trans hab hba
  exact absurd hcycle (hirrefl _)

/-! ### What is found -/

lemma contains_file {text : Option String} {names : List String} {place : FileTree} :
    Contains (.file text) names place ↔ names = [] ∧ place = .file text := by
  constructor
  · rintro ⟨⟩
    exact ⟨rfl, rfl⟩
  · rintro ⟨rfl, rfl⟩
    exact .here _

lemma contains_cons {readable : Bool} {entries : List (String × FileTree)} {name : String}
    {names : List String} {place : FileTree} :
    Contains (.folder readable entries) (name :: names) place ↔
      ∃ tree, (name, tree) ∈ entries ∧ Contains tree names place := by
  constructor
  · rintro ⟨⟩
    exact ⟨_, ‹_›, ‹_›⟩
  · rintro ⟨tree, hentry, hinside⟩
    exact .inside hentry hinside

lemma Listed.entry {readable : Bool} {entries : List (String × FileTree)}
    (h : Listed (.folder readable entries)) {name : String} {tree : FileTree}
    (hentry : (name, tree) ∈ entries) : Listed tree where
  once hfolder := h.once (.inside hentry hfolder)
  named hplace other hother := h.named (.inside hentry hplace) other (List.mem_cons_of_mem _ hother)

lemma listed_file (text : Option String) : Listed (.file text) where
  once hfolder := by cases hfolder
  named hplace := by
    obtain ⟨rfl, -⟩ := contains_file.mp hplace
    exact nofun

lemma listed_folder {readable : Bool} {entries : List (String × FileTree)}
    (hnames : (entries.map Prod.fst).Nodup)
    (hentries : ∀ entry ∈ entries, ProperName entry.1 ∧ Listed entry.2) :
    Listed (.folder readable entries) where
  once hfolder := by
    cases hfolder with
    | here => exact hnames
    | inside hentry hinside => exact (hentries _ hentry).2.once hinside
  named hplace := by
    cases hplace with
    | here => exact nofun
    | inside hentry hinside =>
      exact List.forall_mem_cons.mpr
        ⟨(hentries _ hentry).1, (hentries _ hentry).2.named hinside⟩

lemma fixturesIn?_cons_eq_some {name : String} {tree : FileTree}
    {rest : List (String × FileTree)} {files : List FoundFile} :
    FileTree.fixturesIn? ((name, tree) :: rest) = some files ↔
      ∃ first later, FileTree.fixturesAt? name tree = some first ∧
        FileTree.fixturesIn? rest = some later ∧ first ++ later = files := by
  simp only [FileTree.fixturesIn?, Option.bind_eq_bind, Option.bind_eq_some_iff, Option.pure_def,
    Option.some.injEq, exists_and_left]

lemma fixturesIn?_eq_flatMap {entries : List (String × FileTree)} {files : List FoundFile}
    (h : FileTree.fixturesIn? entries = some files) :
    files = entries.flatMap fun entry => (FileTree.fixturesAt? entry.1 entry.2).getD [] := by
  induction entries generalizing files with
  | nil =>
    cases h
    rfl
  | cons entry rest ih =>
    obtain ⟨first, later, hfirst, hlater, rfl⟩ := fixturesIn?_cons_eq_some.mp h
    rw [List.flatMap_cons, ih hlater, hfirst]
    rfl

lemma fixturesIn?_eq_none (entries : List (String × FileTree)) :
    FileTree.fixturesIn? entries = none ↔
      ∃ name tree, (name, tree) ∈ entries ∧ FileTree.fixturesAt? name tree = none := by
  induction entries with
  | nil => simp [FileTree.fixturesIn?]
  | cons entry rest ih =>
    obtain ⟨name, tree⟩ := entry
    simp only [FileTree.fixturesIn?, List.mem_cons]
    cases hfirst : FileTree.fixturesAt? name tree with
    | none => exact ⟨fun _ => ⟨name, tree, .inl rfl, hfirst⟩, fun _ => rfl⟩
    | some first =>
      simp only [Option.bind_eq_bind, Option.bind_some, Option.bind_eq_none_iff, Option.pure_def,
        reduceCtorEq, imp_false, ← Option.eq_none_iff_forall_ne_some, ih]
      constructor
      · rintro ⟨other, inner, hentry, hnone⟩
        exact ⟨other, inner, .inr hentry, hnone⟩
      · rintro ⟨other, inner, hsame | hentry, hnone⟩
        · cases hsame
          rw [hfirst] at hnone
          cases hnone
        · exact ⟨other, inner, hentry, hnone⟩

lemma leadsToFixture_singleton (name : String) :
    LeadsToFixture [name] ↔ HasExtension name "json" := by
  simp only [LeadsToFixture, List.getLast?_singleton, Option.some.injEq, exists_eq_left']

lemma leadsToFixture_cons (name : String) {names : List String} (h : names ≠ []) :
    LeadsToFixture (name :: names) ↔ LeadsToFixture names := by
  obtain ⟨other, rest, rfl⟩ := List.exists_cons_of_ne_nil h
  simp only [LeadsToFixture, List.getLast?_cons_cons]

/-- What is found in an entry, if anything can be told of it. -/
lemma exists_fixturesAt {name : String} {tree : FileTree} {f : FoundFile}
    (h : f ∈ (FileTree.fixturesAt? name tree).getD []) :
    ∃ found, FileTree.fixturesAt? name tree = some found ∧ f ∈ found := by
  cases hfound : FileTree.fixturesAt? name tree with
  | none =>
    rw [hfound] at h
    cases h
  | some found =>
    rw [hfound] at h
    exact ⟨found, rfl, h⟩

lemma mem_fixturesIn {entries : List (String × FileTree)} {files : List FoundFile}
    (h : FileTree.fixturesIn? entries = some files) (f : FoundFile) :
    f ∈ files ↔ ∃ name tree found, (name, tree) ∈ entries ∧
      FileTree.fixturesAt? name tree = some found ∧ f ∈ found := by
  rw [fixturesIn?_eq_flatMap h, List.mem_flatMap]
  constructor
  · rintro ⟨⟨name, tree⟩, hentry, hf⟩
    obtain ⟨found, hfound, hmem⟩ := exists_fixturesAt hf
    exact ⟨name, tree, found, hentry, hfound, hmem⟩
  · rintro ⟨name, tree, found, hentry, hfound, hmem⟩
    exact ⟨(name, tree), hentry, by rwa [hfound]⟩

lemma fixturesAt?_of_fixturesIn? {entries : List (String × FileTree)} {files : List FoundFile}
    (h : FileTree.fixturesIn? entries = some files) {name : String} {tree : FileTree}
    (hentry : (name, tree) ∈ entries) : ∃ found, FileTree.fixturesAt? name tree = some found := by
  apply Option.ne_none_iff_exists'.mp
  intro hnone
  rw [(fixturesIn?_eq_none entries).mpr ⟨name, tree, hentry, hnone⟩] at h
  cases h

/-- A folder that was searched can be listed, and was. -/
lemma fixturesAt?_folder {name : String} {readable : Bool} {entries : List (String × FileTree)}
    {files : List FoundFile}
    (h : FileTree.fixturesAt? name (.folder readable entries) = some files) :
    ∃ found, FileTree.fixturesIn? entries = some found ∧
      files = (FoundFile.sorted found).map (FoundFile.within name) := by
  cases readable with
  | false => cases h
  | true =>
    obtain ⟨found, hfound, hfiles⟩ := Option.map_eq_some_iff.mp h
    exact ⟨found, hfound, hfiles.symm⟩

/-- The fixtures of an entry are the files below it that have the extension. -/
theorem mem_fixturesAt {tree : FileTree} {name : String} {files : List FoundFile}
    (h : FileTree.fixturesAt? name tree = some files) (f : FoundFile) :
    f ∈ files ↔
      ∃ names, f.names = name :: names ∧ Contains tree names (.file f.text) ∧
        LeadsToFixture f.names := by
  induction tree using treeInduction generalizing name files f with
  | file text =>
    cases h
    simp only [contains_file]
    constructor
    · intro hf
      by_cases hname : FileTree.hasFixtureName name = true
      · rw [if_pos hname] at hf
        obtain rfl := List.mem_singleton.mp hf
        exact ⟨[], rfl, ⟨rfl, rfl⟩, (leadsToFixture_singleton name).mpr
          ((hasFixtureName_iff name).mp hname)⟩
      · rw [if_neg hname] at hf
        cases hf
    · rintro ⟨names, hnames, ⟨rfl, htext⟩, hleads⟩
      obtain ⟨names', text'⟩ := f
      cases hnames
      cases htext
      rw [if_pos ((hasFixtureName_iff name).mpr ((leadsToFixture_singleton name).mp hleads))]
      exact List.mem_singleton.mpr rfl
  | folder readable entries ih =>
    obtain ⟨found, hfound, rfl⟩ := fixturesAt?_folder h
    simp only [List.mem_map, mem_sorted, mem_fixturesIn hfound]
    constructor
    · rintro ⟨g, ⟨inner, tree, below, hentry, hbelow, hg⟩, rfl⟩
      obtain ⟨names, hnames, hfile, hleads⟩ := (ih inner tree hentry hbelow g).mp hg
      refine ⟨g.names, rfl, ?_, (leadsToFixture_cons name ?_).mpr hleads⟩
      · rw [hnames]
        exact .inside hentry hfile
      · rw [hnames]
        exact List.cons_ne_nil _ _
    · rintro ⟨names, hnames, hfile, hleads⟩
      cases names with
      | nil => cases hfile
      | cons inner rest =>
        obtain ⟨tree, hentry, hinside⟩ := contains_cons.mp hfile
        obtain ⟨below, hbelow⟩ := fixturesAt?_of_fixturesIn? hfound hentry
        rw [hnames, leadsToFixture_cons name (List.cons_ne_nil _ _)] at hleads
        refine ⟨⟨inner :: rest, f.text⟩, ⟨inner, tree, below, hentry, hbelow, ?_⟩, ?_⟩
        · exact (ih inner tree hentry hbelow _).mpr ⟨rest, rfl, hinside, hleads⟩
        · rw [FoundFile.within, ← hnames]

/-- An entry cannot be searched where it holds a folder that cannot be listed. -/
theorem fixturesAt?_eq_none (tree : FileTree) (name : String) :
    FileTree.fixturesAt? name tree = none ↔
      ∃ names entries, Contains tree names (.folder false entries) := by
  induction tree using treeInduction generalizing name with
  | file text => simp [FileTree.fixturesAt?, contains_file]
  | folder readable entries ih =>
    cases readable with
    | false => exact ⟨fun _ => ⟨[], entries, .here _⟩, fun _ => rfl⟩
    | true =>
      rw [FileTree.fixturesAt?, Option.map_eq_none_iff, fixturesIn?_eq_none]
      constructor
      · rintro ⟨inner, tree, hentry, hbelow⟩
        obtain ⟨names, hidden, hinside⟩ := (ih inner tree hentry inner).mp hbelow
        exact ⟨inner :: names, hidden, .inside hentry hinside⟩
      · rintro ⟨names, hidden, hinside⟩
        cases hinside with
        | inside hentry hinside =>
          exact ⟨_, _, hentry, (ih _ _ hentry _).mpr ⟨_, hidden, hinside⟩⟩

/-- A place is searched in vain where a folder in it cannot be listed. -/
theorem fixtures?_eq_none (place : FileTree) :
    place.fixtures? = none ↔ ∃ names entries, Contains place names (.folder false entries) := by
  rw [← fixturesAt?_eq_none place ""]
  cases place with
  | file text => simp [FileTree.fixtures?, FileTree.fixturesAt?]
  | folder readable entries =>
    cases readable with
    | false => exact ⟨fun _ => rfl, fun _ => rfl⟩
    | true => simp only [FileTree.fixtures?, FileTree.fixturesAt?, Option.map_eq_none_iff]

section Folder

variable {readable : Bool} {entries : List (String × FileTree)} {files : List FoundFile}

lemma fixtures?_folder (h : (FileTree.folder readable entries).fixtures? = some files) :
    ∃ found, FileTree.fixturesIn? entries = some found ∧ files = FoundFile.sorted found := by
  cases readable with
  | false => cases h
  | true =>
    obtain ⟨found, hfound, hfiles⟩ := Option.map_eq_some_iff.mp h
    exact ⟨found, hfound, hfiles.symm⟩

/-- The fixtures of a folder are the files below it that have the extension. -/
theorem mem_fixtures (h : (FileTree.folder readable entries).fixtures? = some files)
    (f : FoundFile) :
    f ∈ files ↔
      Contains (.folder readable entries) f.names (.file f.text) ∧ LeadsToFixture f.names := by
  obtain ⟨found, hfound, rfl⟩ := fixtures?_folder h
  rw [mem_sorted, mem_fixturesIn hfound]
  constructor
  · rintro ⟨name, tree, below, hentry, hbelow, hf⟩
    obtain ⟨names, hnames, hfile, hleads⟩ := (mem_fixturesAt hbelow f).mp hf
    refine ⟨?_, hleads⟩
    rw [hnames]
    exact .inside hentry hfile
  · rintro ⟨hfile, hleads⟩
    generalize hnames : f.names = names at hfile
    cases hfile with
    | inside hentry hinside =>
      obtain ⟨below, hbelow⟩ := fixturesAt?_of_fixturesIn? hfound hentry
      exact ⟨_, _, below, hentry, hbelow, (mem_fixturesAt hbelow f).mpr
        ⟨_, hnames, hinside, hleads⟩⟩

lemma fixturesIn_distinct (h : FileTree.fixturesIn? entries = some files)
    (hnames : (entries.map Prod.fst).Nodup)
    (hentries : ∀ name tree found, (name, tree) ∈ entries →
      FileTree.fixturesAt? name tree = some found → (found.map FoundFile.names).Nodup) :
    (files.map FoundFile.names).Nodup := by
  rw [fixturesIn?_eq_flatMap h, List.map_flatMap, List.nodup_flatMap]
  constructor
  · intro entry hentry
    obtain ⟨found, hfound⟩ := fixturesAt?_of_fixturesIn? h hentry
    rw [hfound]
    exact hentries entry.1 entry.2 found hentry hfound
  · refine (List.pairwise_map.mp hnames).imp fun {a b} hne => ?_
    -- All that is found in an entry begins with the name of the entry.
    intro names ha hb
    obtain ⟨f, hf, rfl⟩ := List.mem_map.mp ha
    obtain ⟨g, hg, hsame⟩ := List.mem_map.mp hb
    obtain ⟨foundF, hfoundF, hf⟩ := exists_fixturesAt hf
    obtain ⟨foundG, hfoundG, hg⟩ := exists_fixturesAt hg
    obtain ⟨restF, hnamesF, -⟩ := (mem_fixturesAt hfoundF f).mp hf
    obtain ⟨restG, hnamesG, -⟩ := (mem_fixturesAt hfoundG g).mp hg
    rw [hnamesF, hnamesG] at hsame
    exact hne (List.head_eq_of_cons_eq hsame).symm

end Folder

lemma fixturesAt_distinct {tree : FileTree} (h : Listed tree) {name : String}
    {files : List FoundFile} (hfiles : FileTree.fixturesAt? name tree = some files) :
    (files.map FoundFile.names).Nodup := by
  induction tree using treeInduction generalizing name files with
  | file text =>
    cases hfiles
    split <;> simp
  | folder readable entries ih =>
    obtain ⟨found, hfound, rfl⟩ := fixturesAt?_folder hfiles
    have hin := fixturesIn_distinct hfound (h.once (.here _)) fun inner tree below hentry =>
      ih inner tree hentry (h.entry hentry)
    have hperm : (FoundFile.sorted found).Perm found := List.mergeSort_perm _ _
    have hsorted := (hperm.map FoundFile.names).nodup_iff.mpr hin
    rw [List.map_map]
    have hwithin := hsorted.map (List.cons_injective (a := name))
    rwa [List.map_map] at hwithin

/-- What is found in a folder comes in the strict order of its paths. -/
theorem fixtures_strict {readable : Bool} {entries : List (String × FileTree)}
    {files : List FoundFile} (h : Listed (.folder readable entries))
    (hfiles : (FileTree.folder readable entries).fixtures? = some files) :
    files.Pairwise fun a b => List.Lex (· < ·) a.names b.names := by
  obtain ⟨found, hfound, rfl⟩ := fixtures?_folder hfiles
  exact sorted_strict (fixturesIn_distinct hfound (h.once (.here _)) fun _ _ _ hentry =>
    fixturesAt_distinct (h.entry hentry))

/-! ### Other listings -/

lemma Relisted.symm {tree tree' : FileTree} (h : Relisted tree tree') : Relisted tree' tree := by
  induction h with
  | refl tree => exact .refl tree
  | reorder hperm => exact .reorder hperm.symm
  | entry name _ ih => exact .entry name ih
  | trans _ _ ih ih' => exact .trans ih' ih

lemma Relisted.file {tree tree' : FileTree} (h : Relisted tree tree') (text : Option String)
    (hfile : tree = .file text) : tree' = .file text := by
  induction h with
  | refl tree => exact hfile
  | reorder | entry => cases hfile
  | trans _ _ ih ih' => exact ih' (ih hfile)

lemma Relisted.folder {tree tree' : FileTree} (h : Relisted tree tree') {readable : Bool}
    (entries : List (String × FileTree)) (hfolder : tree = .folder readable entries) :
    ∃ entries', tree' = .folder readable entries' ∧
      (entries.map Prod.fst).Perm (entries'.map Prod.fst) := by
  induction h generalizing entries with
  | refl tree => exact ⟨entries, hfolder, .refl _⟩
  | reorder hperm =>
    cases hfolder
    exact ⟨_, rfl, hperm.map Prod.fst⟩
  | entry name _ _ =>
    cases hfolder
    refine ⟨_, rfl, ?_⟩
    rw [List.map_append, List.map_append, List.map_cons, List.map_cons]
  | trans _ _ ih ih' =>
    obtain ⟨between, hbetween, hperm⟩ := ih entries hfolder
    obtain ⟨entries', hentries', hperm'⟩ := ih' between hbetween
    exact ⟨entries', hentries', hperm.trans hperm'⟩

/-- Names that lead somewhere lead to a listing of the same place. -/
lemma Relisted.contains {tree tree' : FileTree} (h : Relisted tree tree') {names : List String}
    {place : FileTree} (hplace : Contains tree names place) :
    ∃ place', Contains tree' names place' ∧ Relisted place place' := by
  induction h generalizing names place with
  | refl tree => exact ⟨place, hplace, .refl place⟩
  | @reorder readable entries entries' hperm =>
    cases hplace with
    | here => exact ⟨_, .here _, .reorder hperm⟩
    | inside hentry hinside =>
      exact ⟨place, .inside (hperm.mem_iff.mp hentry) hinside, .refl place⟩
  | @entry readable before after name tree tree' h ih =>
    cases hplace with
    | here => exact ⟨_, .here _, .entry name h⟩
    | @inside _ _ other found _ rest hentry hinside =>
      rw [List.mem_append, List.mem_cons] at hentry
      obtain hbefore | hsame | hafter := hentry
      · exact ⟨place, .inside (List.mem_append_left _ hbefore) hinside, .refl place⟩
      · cases hsame
        obtain ⟨place', hplace', hlisted⟩ := ih hinside
        exact ⟨place', .inside (List.mem_append_right _ List.mem_cons_self) hplace', hlisted⟩
      · exact ⟨place, .inside (List.mem_append_right _ (List.mem_cons_of_mem _ hafter)) hinside,
          .refl place⟩
  | trans _ _ ih ih' =>
    obtain ⟨between, hbetween, hlisted⟩ := ih hplace
    obtain ⟨place', hplace', hlisted'⟩ := ih' hbetween
    exact ⟨place', hplace', .trans hlisted hlisted'⟩

lemma Relisted.contains_file_iff {tree tree' : FileTree} (h : Relisted tree tree')
    (names : List String) (text : Option String) :
    Contains tree names (.file text) ↔ Contains tree' names (.file text) := by
  constructor
  · intro hfile
    obtain ⟨place, hplace, hlisted⟩ := h.contains hfile
    rwa [hlisted.file text rfl] at hplace
  · intro hfile
    obtain ⟨place, hplace, hlisted⟩ := h.symm.contains hfile
    rwa [hlisted.file text rfl] at hplace

lemma Relisted.listed {tree tree' : FileTree} (h : Relisted tree tree') (htree : Listed tree) :
    Listed tree' where
  once hfolder := by
    obtain ⟨place, hplace, hlisted⟩ := h.symm.contains hfolder
    obtain ⟨entries, rfl, hperm⟩ := hlisted.folder _ rfl
    exact hperm.nodup_iff.mpr (htree.once hplace)
  named hplace name hname := by
    obtain ⟨place, hfound, -⟩ := h.symm.contains hplace
    exact htree.named hfound name hname

lemma Relisted.fixtures?_eq_none {tree tree' : FileTree} (h : Relisted tree tree')
    (hnone : tree.fixtures? = none) : tree'.fixtures? = none := by
  obtain ⟨names, entries, hhidden⟩ := (Proofs.fixtures?_eq_none tree).mp hnone
  obtain ⟨place, hplace, hlisted⟩ := h.contains hhidden
  obtain ⟨entries', rfl, -⟩ := hlisted.folder entries rfl
  exact (Proofs.fixtures?_eq_none tree').mpr ⟨names, entries', hplace⟩

/-- What is found does not depend on the order in which folders list their entries. -/
theorem Relisted.fixtures_eq {tree tree' : FileTree} (h : Relisted tree tree')
    (htree : Listed tree) : tree'.fixtures? = tree.fixtures? := by
  cases hfiles : tree.fixtures? with
  | none => exact h.fixtures?_eq_none hfiles
  | some files =>
    cases hfiles' : tree'.fixtures? with
    | none =>
      rw [h.symm.fixtures?_eq_none hfiles'] at hfiles
      cases hfiles
    | some files' =>
      cases tree with
      | file text =>
        rw [h.file text rfl, hfiles] at hfiles'
        exact hfiles'.symm
      | folder readable entries =>
        obtain ⟨entries', rfl, -⟩ := h.folder entries rfl
        congr 1
        refine eq_of_strict (fixtures_strict (h.listed htree) hfiles')
          (fixtures_strict htree hfiles) fun f => ?_
        rw [mem_fixtures hfiles', mem_fixtures hfiles, h.contains_file_iff]

/-! ### Following a path -/

lemma lookup_eq_some {entries : List (String × FileTree)} (hnames : (entries.map Prod.fst).Nodup)
    (name : String) (tree : FileTree) :
    entries.lookup name = some tree ↔ (name, tree) ∈ entries := by
  rw [List.lookup_eq_some_iff]
  constructor
  · rintro ⟨before, after, rfl, -⟩
    exact List.mem_append_right _ List.mem_cons_self
  · intro hentry
    obtain ⟨before, after, rfl⟩ := List.append_of_mem hentry
    refine ⟨before, after, rfl, fun entry hbefore => ?_⟩
    rw [List.map_append, List.nodup_append] at hnames
    have hne := hnames.2.2 entry.1 (List.mem_map_of_mem hbefore) name List.mem_cons_self
    exact bne_iff_ne.mpr (Ne.symm hne)

lemma entry?_eq_some {place inner : FileTree} {name : String} (hplace : Listed place) :
    place.entry? name = some inner ↔ Contains place [name] inner := by
  cases place with
  | file text => simp [FileTree.entry?, contains_file]
  | folder readable entries =>
    rw [FileTree.entry?, contains_cons]
    rw [lookup_eq_some (hplace.once (.here _))]
    constructor
    · exact fun hentry => ⟨inner, hentry, .here _⟩
    · rintro ⟨tree, hentry, ⟨⟩⟩
      exact hentry

lemma Relisted.isFolder {tree tree' : FileTree} (h : Relisted tree tree') :
    tree'.isFolder = tree.isFolder := by
  cases tree with
  | file text => rw [h.file text rfl]
  | folder readable entries =>
    obtain ⟨entries', rfl, -⟩ := h.folder entries rfl
    rfl

lemma Listed.inside {tree place : FileTree} {names : List String} (h : Listed tree)
    (hplace : Contains tree names place) : Listed place := by
  induction hplace with
  | here => exact h
  | inside hentry _ ih => exact ih (h.entry hentry)

/-- A path leads to a listing of the same place, whichever listing of a tree it is followed in. -/
lemma walk?_relisted {names : List String} {outer outer' : List FileTree}
    {place place' found : FileTree} (houter : List.Forall₂ Relisted outer outer')
    (hlisted : ∀ folder ∈ outer, Listed folder) (hplace : Relisted place place')
    (h : Listed place) (hwalk : FileTree.walk? outer place names = some found) :
    Listed found ∧
      ∃ found', FileTree.walk? outer' place' names = some found' ∧ Relisted found found' := by
  induction names generalizing outer outer' place place' with
  | nil =>
    cases hwalk
    exact ⟨h, place', rfl, hplace⟩
  | cons name rest ih =>
    unfold FileTree.walk? at hwalk ⊢
    rw [hplace.isFolder]
    by_cases hstay : name = "" ∨ name = "."
    · rw [if_pos hstay] at hwalk ⊢
      by_cases hfolder : place.isFolder = true
      · rw [if_pos hfolder] at hwalk ⊢
        exact ih houter hlisted hplace h hwalk
      · rw [if_neg hfolder] at hwalk
        cases hwalk
    · rw [if_neg hstay] at hwalk ⊢
      by_cases hup : name = ".."
      · rw [if_pos hup] at hwalk ⊢
        cases houter with
        | nil => cases hwalk
        | @cons parent parent' outer outer' hparent houter =>
          by_cases hfolder : place.isFolder = true
          · simp only [if_pos hfolder] at hwalk ⊢
            exact ih houter (fun folder hmem => hlisted folder (List.mem_cons_of_mem _ hmem))
              hparent (hlisted parent List.mem_cons_self) hwalk
          · simp only [if_neg hfolder] at hwalk
            cases hwalk
      · rw [if_neg hup] at hwalk ⊢
        cases hentry : place.entry? name with
        | none =>
          rw [hentry] at hwalk
          cases hwalk
        | some inner =>
          simp only [hentry] at hwalk
          have hinner := (entry?_eq_some h).mp hentry
          obtain ⟨inner', hinner', hrelisted⟩ := hplace.contains hinner
          simp only [(entry?_eq_some (hplace.listed h)).mpr hinner']
          refine ih (.cons hplace houter) ?_ hrelisted (h.inside hinner) hwalk
          intro folder hmem
          obtain rfl | hmem := List.mem_cons.mp hmem
          · exact h
          · exact hlisted folder hmem

lemma find?_relisted {tree tree' found : FileTree} {path : String} (htree : Relisted tree tree')
    (h : Listed tree) (hfind : tree.find? path = some found) :
    Listed found ∧ ∃ found', tree'.find? path = some found' ∧ Relisted found found' := by
  unfold FileTree.find? at hfind ⊢
  split at hfind
  · cases hfind
  · rw [if_neg ‹_›]
    exact walk?_relisted .nil nofun htree h hfind

/-- The path of a folder with a slash at its end. -/
def slashed (folder : String) : String := if folder.endsWith "/" then folder else folder ++ "/"

lemma join_eq (folder name : String) : FoundFile.join folder name = slashed folder ++ name := by
  unfold FoundFile.join slashed
  split <;> rfl

lemma slashed_append (text : String) {name : String} (hname : ProperName name) :
    slashed (text ++ name) = text ++ name ++ "/" := by
  refine if_neg fun hends => hname.2 ?_
  rw [String.endsWith_eq_endsWith_toSlice, String.Slice.endsWith_string_iff,
    String.copy_toSlice, String.toList_append] at hends
  obtain ⟨before, hbefore⟩ := hends
  have hlast := congrArg List.getLast? hbefore
  rw [List.getLast?_append_of_ne_nil _ (String.toList_eq_nil_iff.not.mpr hname.1)] at hlast
  apply List.mem_of_getLast?
  rw [← hlast]
  exact List.getLast?_concat

/-- The path of a file is that of the place, a slash, and its names with slashes between them. -/
lemma toList_path (folder name : String) {rest : List String}
    (hnames : ∀ other ∈ name :: rest, ProperName other) :
    ((name :: rest).foldl FoundFile.join folder).toList =
      (slashed folder).toList ++ ['/'].intercalate ((name :: rest).map String.toList) := by
  induction rest generalizing folder name with
  | nil => simp [join_eq]
  | cons other rest ih =>
    have hrest := ih (FoundFile.join folder name) other fun n hn =>
      hnames n (List.mem_cons_of_mem _ hn)
    rw [List.foldl_cons, hrest, join_eq, slashed_append _ (hnames name List.mem_cons_self)]
    simp

/-- Files at different names below a place have different paths. -/
lemma names_eq_of_path {f g : FoundFile} (place : String) (hf : f.names ≠ []) (hg : g.names ≠ [])
    (hfn : ∀ name ∈ f.names, ProperName name) (hgn : ∀ name ∈ g.names, ProperName name)
    (h : f.path place = g.path place) : f.names = g.names := by
  have hsplit {names : List String} (hnames : names ≠ []) (hproper : ∀ n ∈ names, ProperName n) :
      List.splitOn '/' (['/'].intercalate (names.map String.toList)) = names.map String.toList := by
    apply List.splitOn_intercalate
    · intro part hpart
      obtain ⟨name, hname, rfl⟩ := List.mem_map.mp hpart
      exact (hproper name hname).2
    · exact fun hnil => hnames (List.map_eq_nil_iff.mp hnil)
  have htext := congrArg String.toList h
  unfold FoundFile.path at htext
  obtain ⟨a, as, hfa⟩ := List.exists_cons_of_ne_nil hf
  obtain ⟨b, bs, hgb⟩ := List.exists_cons_of_ne_nil hg
  rw [hfa, hgb, toList_path place a (hfa ▸ hfn), toList_path place b (hgb ▸ hgn)] at htext
  have hparts := congrArg (List.splitOn '/') (List.append_cancel_left htext)
  rw [← hfa, ← hgb, hsplit hf hfn, hsplit hg hgn] at hparts
  exact List.map_injective_iff.mpr (fun _ _ => String.toList_inj.mp) hparts

/-- No path is found twice. -/
lemma paths_distinct {readable : Bool} {entries : List (String × FileTree)}
    {files : List FoundFile} (h : Listed (.folder readable entries))
    (hfiles : (FileTree.folder readable entries).fixtures? = some files) (path : String) :
    (files.map fun f => f.path path).Nodup := by
  refine List.pairwise_map.mpr (List.Pairwise.imp_of_mem ?_ (fixtures_strict h hfiles))
  intro f g hf hg hlt hsame
  have hbelow {f : FoundFile} (hf : f ∈ files) :
      f.names ≠ [] ∧ ∀ name ∈ f.names, ProperName name := by
    obtain ⟨hfile, -⟩ := (mem_fixtures hfiles f).mp hf
    refine ⟨?_, h.named hfile⟩
    intro hnil
    rw [hnil] at hfile
    cases hfile
  have heq := names_eq_of_path path (hbelow hf).1 (hbelow hg).1 (hbelow hf).2 (hbelow hg).2 hsame
  rw [heq] at hlt
  exact List.lex_irrefl String.lt_irrefl _ hlt

/-- A path to a file finds that file, whatever its name. A path to a folder finds the files at any
depth below it that have the extension, each of them once, in the strict order of their names from
the folder inwards, unless it holds a folder that cannot be listed. All listings of a tree give the
same. -/
theorem discovery_is_exact (tree : FileTree) (path : String) (place : FileTree)
    (htree : Listed tree) (hpath : tree.find? path = some place) :
    (∀ text, place = .file text →
      ∃ f, place.fixtures? = some [f] ∧ f.path path = path ∧ f.text = text) ∧
    (place.fixtures? = none ↔ ∃ names entries, Contains place names (.folder false entries)) ∧
    (∀ readable entries files, place = .folder readable entries →
      place.fixtures? = some files →
        (∀ f, f ∈ files ↔ Contains place f.names (.file f.text) ∧ LeadsToFixture f.names) ∧
        (files.Pairwise fun a b => List.Lex (· < ·) a.names b.names) ∧
        (files.map fun f => f.path path).Nodup) ∧
    ∀ tree', Relisted tree tree' →
      ∃ place', tree'.find? path = some place' ∧ place'.fixtures? = place.fixtures? := by
  have hlisted : Listed place := (find?_relisted (.refl tree) htree hpath).1
  refine ⟨?_, fixtures?_eq_none place, ?_, ?_⟩
  · rintro text rfl
    exact ⟨⟨[], text⟩, rfl, rfl, rfl⟩
  · rintro readable entries files rfl hfiles
    exact ⟨mem_fixtures hfiles, fixtures_strict hlisted hfiles, paths_distinct hlisted hfiles path⟩
  · intro tree' hrelisted
    obtain ⟨-, place', hplace', hsame⟩ := find?_relisted hrelisted htree hpath
    exact ⟨place', hplace', hsame.fixtures_eq hlisted⟩

/-- A folder with two files that are no fixtures, a folder that comes before the file named like it,
and a folder that is itself named like a fixture. -/
def mixedEntries : List (String × FileTree) :=
  [(".json", .file none), ("a", .folder true [("z.json", .file none)]), ("a.json", .file none),
    ("b.json", .folder true [("c.json", .file none)]), ("json", .file none)]

/-- The folder may be listed backwards: what is found in it is the same, in the same order. -/
theorem discovery_is_exact_mixedEntries :
    ∃ place, (FileTree.folder true [("d", .folder true mixedEntries.reverse)]).find? "d/." =
        some place ∧
      place.fixtures? =
        some [⟨["a", "z.json"], none⟩, ⟨["a.json"], none⟩, ⟨["b.json", "c.json"], none⟩] := by
  have hsteps : "d/.".splitOn "/" = ["d", "."] := by cbv
  have hfind : (FileTree.folder true [("d", .folder true mixedEntries)]).find? "d/." =
      some (.folder true mixedEntries) := by
    rw [FileTree.find?, if_neg (by decide +kernel), hsteps]
    rfl
  have hlisted : Listed (.folder true [("d", .folder true mixedEntries)]) := by
    have hsingle {name : String} (hname : ProperName name) {tree : FileTree} (htree : Listed tree) :
        Listed (.folder true [(name, tree)]) :=
      listed_folder (List.nodup_singleton name) (List.forall_mem_singleton.mpr ⟨hname, htree⟩)
    refine hsingle (by decide) (listed_folder (by decide) ?_)
    simp only [mixedEntries, List.forall_mem_cons, List.not_mem_nil, false_implies, implies_true,
      and_true]
    exact ⟨⟨by decide, listed_file none⟩, ⟨by decide, hsingle (by decide) (listed_file none)⟩,
      ⟨by decide, listed_file none⟩, ⟨by decide, hsingle (by decide) (listed_file none)⟩,
      by decide, listed_file none⟩
  obtain ⟨-, -, -, hother⟩ := discovery_is_exact _ _ _ hlisted hfind
  have hbackwards : Relisted (.folder true [("d", .folder true mixedEntries)])
      (.folder true [("d", .folder true mixedEntries.reverse)]) :=
    @Relisted.entry true [] [] "d" _ _ (.reorder mixedEntries.reverse_perm.symm)
  obtain ⟨place, hplace, hsame⟩ := hother _ hbackwards
  refine ⟨place, hplace, hsame.trans ?_⟩
  have hin : FileTree.fixturesIn? mixedEntries =
      some [⟨["a", "z.json"], none⟩, ⟨["a.json"], none⟩, ⟨["b.json", "c.json"], none⟩] := by
    decide +kernel
  rw [FileTree.fixtures?, hin, Option.map_some]
  exact congrArg some (List.mergeSort_of_pairwise (by decide))

end ContractMachine.Proofs
