import SdkLoom.Proofs.FileWrites

/-!
# What writing a file set leaves

Every file of a set is written, reported as failed or left out, and which of these is decided by its content and the tree
before the first write. `FileSet.Materialized` says what the tree and the report are then; what becomes of a file does not
depend on the other files of the set (`isolated`).
-/

namespace SdkLoom

namespace FileSet

theorem outcome_eq_skip_iff (templates : TemplateStore) (tree : FileTree) (path : String) (content : FileContent) :
    outcome templates tree path content = .skip ↔ content.resolve ⟨path, templates, tree⟩ = .ok "" := by
  unfold outcome
  cases content.resolve ⟨path, templates, tree⟩ with
  | error e => simp
  | ok text =>
    by_cases hempty : text = "" <;> simp [hempty]

theorem outcome_eq_write_iff (templates : TemplateStore) (tree : FileTree) (path : String) (content : FileContent)
    (text : String) :
    outcome templates tree path content = .write text ↔
      content.resolve ⟨path, templates, tree⟩ = .ok text ∧ text ≠ "" := by
  unfold outcome
  cases content.resolve ⟨path, templates, tree⟩ with
  | error e => simp
  | ok s =>
    by_cases hempty : s = ""
    · simp [hempty]
    · simp only [String.isEmpty_iff, hempty, if_false, Outcome.write.injEq, Except.ok.injEq, iff_self_and]
      rintro rfl
      exact hempty

/-! ## Reports -/

theorem keys_outcomes (files : FileSet) (templates : TemplateStore) (tree : FileTree) :
    (files.outcomes templates tree).map Prod.fst = files.keys := by
  simp [outcomes, SortedMap.keys, SortedMap.toList, Function.comp_def]

theorem pairwise_keys (files : FileSet) : files.keys.Pairwise fun a b => compare a b = .lt :=
  List.pairwise_map.2 files.sorted

/-- Every file has one fate. -/
theorem perm_ofFate (dir : String) (tree : FileTree) (os : List (String × Outcome)) :
    (ofFate dir tree os .written ++ ofFate dir tree os .failed ++ ofFate dir tree os .skipped).Perm (os.map Prod.fst) := by
  induction os with
  | nil => exact .refl _
  | cons file rest ih =>
    have hcons : ∀ f, ofFate dir tree (file :: rest) f =
        if fate dir tree file = f then file.1 :: ofFate dir tree rest f else ofFate dir tree rest f := by
      intro f
      by_cases hf : fate dir tree file = f <;> simp [ofFate, hf]
    rw [hcons, hcons, hcons, List.map_cons]
    cases fate dir tree file with
    | written => exact ih.cons file.1
    | failed => exact (List.perm_middle.append_right _).trans (ih.cons file.1)
    | skipped => exact List.perm_middle.trans (ih.cons file.1)

/-- The files of a fate are in order. -/
theorem pairwise_ofFate (files : FileSet) (dir : String) (templates : TemplateStore) (tree : FileTree) (f : Fate) :
    (ofFate dir tree (files.outcomes templates tree) f).Pairwise fun a b => compare a b = .lt := by
  refine files.pairwise_keys.sublist ?_
  rw [← files.keys_outcomes templates tree]
  exact List.filter_sublist.map _

theorem mem_ofFate_iff (files : FileSet) (dir : String) (templates : TemplateStore) (tree : FileTree) (f : Fate)
    (path : String) :
    path ∈ ofFate dir tree (files.outcomes templates tree) f ↔
      ∃ content, files.get? path = some content ∧ fate dir tree (path, outcome templates tree path content) = f := by
  simp only [ofFate, List.mem_map, List.mem_filter, decide_eq_true_iff, Prod.exists]
  constructor
  · rintro ⟨p, o, ⟨hmem, hfate⟩, rfl⟩
    obtain ⟨content, hget, rfl⟩ := (mem_outcomes_iff ..).1 hmem
    exact ⟨content, hget, hfate⟩
  · rintro ⟨content, hget, hfate⟩
    exact ⟨path, _, ⟨(mem_outcomes_iff ..).2 ⟨content, hget, rfl⟩, hfate⟩, rfl⟩

theorem fate_eq_skipped_iff (dir : String) (tree : FileTree) (path : String) (o : Outcome) :
    fate dir tree (path, o) = .skipped ↔ o = .skip := by
  cases o with
  | write text =>
    simp only [fate]
    split_ifs <;> simp
  | _ => simp [fate]

theorem fate_eq_written_iff (dir : String) (tree : FileTree) (path : String) (o : Outcome) :
    fate dir tree (path, o) = .written ↔ ∃ text, o = .write text ∧ (job dir path text).Lands tree := by
  cases o with
  | write text => simp [fate]
  | _ => simp [fate]

/-! ## Separate files -/

/-- The files whose paths pass a test. -/
def only (files : FileSet) (keep : String → Bool) : FileSet := files.filter fun p _ => keep p

/-- What is to be done with some of the files is what is to be done with them among all. -/
theorem outcomes_only (files : FileSet) (keep : String → Bool) (templates : TemplateStore) (tree : FileTree) :
    (files.only keep).outcomes templates tree = (files.outcomes templates tree).filter fun file => keep file.1 := by
  rw [outcomes, outcomes, List.filter_map]
  rfl

theorem ofFate_only (files : FileSet) (keep : String → Bool) (dir : String) (templates : TemplateStore) (tree : FileTree)
    (f : Fate) :
    ofFate dir tree ((files.only keep).outcomes templates tree) f =
      (ofFate dir tree (files.outcomes templates tree) f).filter keep := by
  rw [outcomes_only, ofFate, ofFate, List.filter_map, List.filter_filter, List.filter_filter]
  simp only [Function.comp_def, Bool.and_comm]

namespace Separate

variable {files : FileSet} {dir : String} {templates : TemplateStore} {tree : FileTree}

/-- Some of several separate files are separate. -/
theorem only (h : files.Separate dir templates tree) (keep : String → Bool) :
    (files.only keep).Separate dir templates tree := by
  have hsubset : ∀ p ∈ (files.only keep).keys, p ∈ files.keys := by
    intro p hp
    rw [FileSet.only, SortedMap.keys_filter] at hp
    exact List.mem_of_mem_filter hp
  refine { rooted := h.rooted, plain := ?_, apart := ?_, reads := ?_ }
  · exact fun p hp => h.plain p (hsubset p hp)
  · exact fun p hp q hq => h.apart p (hsubset p hp) q (hsubset q hq)
  · intro p content hget
    rw [FileSet.only, SortedMap.get?_filter] at hget
    obtain ⟨-, hget⟩ := Option.ite_none_right_eq_some.1 hget
    obtain ⟨names, hmade, hread⟩ := h.reads p content hget
    exact ⟨names, hmade, fun root hroot n hn q hq => hread root hroot n hn q (hsubset q hq)⟩

/-- The place of a file has its text if that lands, and else what it had. -/
theorem contentAt?_materialize (h : files.Separate dir templates tree) {path : String} {content : FileContent}
    (hget : files.get? path = some content) :
    (files.materialize dir templates tree).1.contentAt? (Place.ofPath (Path.join dir path)) =
      match outcome templates tree path content with
      | .write text =>
        if (job dir path text).Lands tree then some (.text text) else tree.contentAt? (Place.ofPath (Path.join dir path))
      | _ => tree.contentAt? (Place.ofPath (Path.join dir path)) := by
  obtain ⟨hlaid, -⟩ := h.materialize_eq
  have hown : ∀ j, JobOf dir (files.outcomes templates tree) j → j.target = Place.ofPath (Path.join dir path) →
      ∃ text, outcome templates tree path content = .write text ∧ j = job dir path text := by
    rintro j ⟨p, text, hmem, rfl⟩ heq
    obtain ⟨content', hget', ho⟩ := (mem_outcomes_iff ..).1 hmem
    cases h.target_inj (files.mem_keys_of_get? hget') (files.mem_keys_of_get? hget) heq
    cases hget.symm.trans hget'
    exact ⟨text, ho.symm, rfl⟩
  have hother : (∀ text, outcome templates tree path content = .write text → ¬ (job dir path text).Lands tree) →
      (files.materialize dir templates tree).1.contentAt? (Place.ofPath (Path.join dir path)) =
        tree.contentAt? (Place.ofPath (Path.join dir path)) := by
    intro hnone
    refine hlaid.contentAt?_other ?_
    rintro j ⟨hj, hlands⟩ heq
    obtain ⟨text, ho, rfl⟩ := hown j hj heq
    exact hnone text ho hlands
  cases ho : outcome templates tree path content with
  | write text =>
    by_cases hlands : (job dir path text).Lands tree
    · have hj : JobOf dir (files.outcomes templates tree) (job dir path text) :=
        ⟨path, text, (mem_outcomes_iff ..).2 ⟨content, hget, ho.symm⟩, rfl⟩
      simp only [hlands, if_true]
      exact hlaid.contentAt?_target (j := job dir path text) ⟨hj, hlands⟩
    · simp only [hlands, if_false]
      refine hother fun text' ho' => ?_
      cases ho.symm.trans ho'
      exact hlands
  | skip => exact hother fun text ho' => by cases ho.symm.trans ho'
  | fail => exact hother fun text ho' => by cases ho.symm.trans ho'

/-- The path of a file whose text lands reads that text. -/
theorem read_materialize (h : files.Separate dir templates tree) {path text : String}
    (hmem : (path, Outcome.write text) ∈ files.outcomes templates tree) (hlands : (job dir path text).Lands tree) :
    (files.materialize dir templates tree).1.read (Path.join dir path) = .ok text := by
  obtain ⟨hlaid, -⟩ := h.materialize_eq
  have hj : JobOf dir (files.outcomes templates tree) (job dir path text) := ⟨path, text, hmem, rfl⟩
  obtain ⟨hpath, hend⟩ := h.apart_jobs.named _ hj
  refine (FileTree.read_eq_ok_iff ..).2 ⟨hpath, hend, ?_, ?_⟩
  · exact fun l hl => hlaid.directory_of_mem_way h.apart_jobs (j := job dir path text) hj hlands.1 hl
  · exact hlaid.contentAt?_target (j := job dir path text) ⟨hj, hlands⟩

end Separate

/-- What a set of files has become, in a tree and in a report. -/
structure Materialized (files : FileSet) (dir : String) (templates : TemplateStore) (tree : FileTree)
    (result : FileTree × Report) : Prop where
  /-- Each list of the report is in order. -/
  ascending : ∀ paths ∈ [result.2.written, result.2.failed, result.2.skipped], paths.Pairwise fun a b => compare a b = .lt
  /-- Every file is reported once. -/
  complete : (result.2.written ++ result.2.failed ++ result.2.skipped).Perm files.keys
  /-- A file is left out exactly if its text is empty. -/
  skipped : ∀ p, p ∈ result.2.skipped ↔
    ∃ content, files.get? p = some content ∧ content.resolve ⟨p, templates, tree⟩ = .ok ""
  /-- A file is written exactly if it has a text and that lands. -/
  written : ∀ p, p ∈ result.2.written ↔ ∃ content text, files.get? p = some content ∧
    content.resolve ⟨p, templates, tree⟩ = .ok text ∧ text ≠ "" ∧ (job dir p text).Lands tree
  /-- A file that is written has its text. -/
  texts : ∀ p ∈ result.2.written, ∃ content text, files.get? p = some content ∧
    content.resolve ⟨p, templates, tree⟩ = .ok text ∧ result.1.read (Path.join dir p) = .ok text
  /-- No other file has changed, come or gone. -/
  others : ∀ l, (∀ p ∈ result.2.written, Place.ofPath (Path.join dir p) ≠ l) → result.1.contentAt? l = tree.contentAt? l
  /-- What becomes of a file is the same without the other files. -/
  isolated : ∀ keep : String → Bool,
    ((files.only keep).materialize dir templates tree).2 =
      ⟨result.2.written.filter keep, result.2.failed.filter keep, result.2.skipped.filter keep⟩ ∧
    ∀ p ∈ files.keys, keep p = true →
      ((files.only keep).materialize dir templates tree).1.contentAt? (Place.ofPath (Path.join dir p)) =
        result.1.contentAt? (Place.ofPath (Path.join dir p))

/-- Separate files become what their contents and the tree tell. -/
theorem Separate.materialized {files : FileSet} {dir : String} {templates : TemplateStore} {tree : FileTree}
    (h : files.Separate dir templates tree) :
    files.Materialized dir templates tree (files.materialize dir templates tree) := by
  obtain ⟨hlaid, hreport⟩ := h.materialize_eq
  have hwritten : ∀ p, p ∈ (files.materialize dir templates tree).2.written ↔
      ∃ content text, files.get? p = some content ∧ outcome templates tree p content = .write text ∧
        (job dir p text).Lands tree := by
    intro p
    rw [hreport]
    simp only [fates, mem_ofFate_iff, fate_eq_written_iff, exists_and_left]
  refine { ascending := ?_, complete := ?_, skipped := ?_, written := ?_, texts := ?_, others := ?_, isolated := ?_ }
  · rw [hreport]
    simp only [fates, List.forall_mem_cons, List.not_mem_nil, false_implies, implies_true, and_true]
    exact ⟨pairwise_ofFate .., pairwise_ofFate .., pairwise_ofFate ..⟩
  · rw [hreport, ← files.keys_outcomes templates tree]
    exact perm_ofFate ..
  · intro p
    rw [hreport]
    simp only [fates, mem_ofFate_iff, fate_eq_skipped_iff, outcome_eq_skip_iff]
  · intro p
    simp only [hwritten, outcome_eq_write_iff, and_assoc]
  · intro p hp
    obtain ⟨content, text, hget, ho, hlands⟩ := (hwritten p).1 hp
    exact ⟨content, text, hget, ((outcome_eq_write_iff ..).1 ho).1,
      h.read_materialize ((mem_outcomes_iff ..).2 ⟨content, hget, ho.symm⟩) hlands⟩
  · intro l hl
    refine hlaid.contentAt?_other ?_
    rintro j ⟨⟨p, text, hmem, rfl⟩, hlands⟩ heq
    obtain ⟨content, hget, ho⟩ := (mem_outcomes_iff ..).1 hmem
    exact hl p ((hwritten p).2 ⟨content, text, hget, ho.symm, hlands⟩) heq
  · intro keep
    constructor
    · rw [(h.only keep).materialize_eq.2, hreport]
      simp only [fates, ofFate_only]
    · intro p hp hkeep
      obtain ⟨content, hget⟩ := (files.contains_eq_true_iff p).1 ((files.mem_keys_iff p).1 hp)
      have hget' : (files.only keep).get? p = some content := by
        rw [FileSet.only, SortedMap.get?_filter, if_pos hkeep, hget]
      rw [(h.only keep).contentAt?_materialize hget', h.contentAt?_materialize hget]

end FileSet

end SdkLoom
