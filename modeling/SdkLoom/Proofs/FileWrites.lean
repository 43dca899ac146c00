import Mathlib.Data.List.TakeWhile
import SdkLoom.Files.Set
import SdkLoom.Proofs.FileTrees

/-!
# Writes that do not disturb each other

A write makes the directories above its place and then writes there. Whether it succeeds is decided by the tree before the
first of several writes (`FileJob.Lands`), as long as no write has its place in the way of another. What a tree looks like
after some writes is `Laid`: it depends on which of them have made their directories and which have written, but not on an
order. Each of the two steps of a write keeps it (`Laid.make`, `Laid.write`).
-/

namespace SdkLoom

/-- A text to be written at a path. -/
structure FileJob where
  path : String
  text : String

namespace FileJob

/-- Where the text goes. -/
def target (j : FileJob) : Place := Place.ofPath j.path

/-- The places on the way to the target. -/
def way (j : FileJob) : List Place := Place.above j.path

/-- No file is on the way. -/
def Clear (tree : FileTree) (j : FileJob) : Prop := ∀ l ∈ j.way, tree.contentAt? l = none

/-- The text can be written: no file is on the way, and the target is no directory, nor made one on the way. -/
def Lands (tree : FileTree) (j : FileJob) : Prop :=
  j.Clear tree ∧ j.target ∉ j.way ∧ tree.entry? j.target ≠ some .directory

instance (tree : FileTree) (j : FileJob) : Decidable (j.Clear tree) := inferInstanceAs (Decidable (∀ l ∈ _, _))

instance (tree : FileTree) (j : FileJob) : Decidable (j.Lands tree) := inferInstanceAs (Decidable (_ ∧ _ ∧ _))

/-- The places where the job has directories made, up to the first file on the way. -/
def made (tree : FileTree) (j : FileJob) : List Place := j.way.takeWhile fun l => (tree.contentAt? l).isNone

theorem mem_way_of_mem_made {tree : FileTree} {j : FileJob} {l : Place} (h : l ∈ j.made tree) : l ∈ j.way :=
  (List.takeWhile_sublist _).subset h

/-- What is made depends only on which of the places on the way are files. -/
theorem made_congr {tree t : FileTree} {j : FileJob} (h : ∀ l ∈ j.way, t.contentAt? l = tree.contentAt? l) :
    j.made t = j.made tree := by
  unfold made
  generalize j.way = ls at h
  induction ls with
  | nil => rfl
  | cons l rest ih =>
    rw [List.takeWhile_cons, List.takeWhile_cons, h l List.mem_cons_self]
    rw [ih fun l hl => h l (List.mem_cons_of_mem _ hl)]

theorem made_of_clear {tree : FileTree} {j : FileJob} (h : j.Clear tree) : j.made tree = j.way := by
  refine List.takeWhile_eq_self_iff.2 fun l hl => ?_
  rw [h l hl]
  rfl

/-- Jobs for different files: each goes to a place of its own, and none has its place on the way of another, unless it has
it on its own way. -/
structure Apart (jobs : FileJob → Prop) : Prop where
  named : ∀ j, jobs j → j.path ≠ "" ∧ Path.endsInDirectory j.path = false
  targets : ∀ j k, jobs j → jobs k → j.target = k.target → j = k
  ways : ∀ j k, jobs j → jobs k → j.target ∈ k.way → j.target ∈ j.way

end FileJob

/-! ## Trees between writes -/

/-- Nothing was at a place, and some jobs have a directory made there. -/
def NewDirectory (tree : FileTree) (prepared : FileJob → Prop) (l : Place) : Prop :=
  tree.entry? l = none ∧ ∃ j, prepared j ∧ l ∈ j.made tree

/-- What a tree has become when some jobs have made their directories and some have written their texts. -/
structure Laid (jobs : FileJob → Prop) (tree : FileTree) (prepared landed : FileJob → Prop) (t : FileTree) : Prop where
  known : ∀ j, prepared j → jobs j
  sound : ∀ j, landed j → jobs j ∧ j.Lands tree
  files : ∀ j, landed j → t.entries.get? j.target = some (.file (.text j.text))
  directories : ∀ l, (∀ j, landed j → j.target ≠ l) → NewDirectory tree prepared l → t.entries.get? l = some .directory
  others : ∀ l, (∀ j, landed j → j.target ≠ l) → ¬ NewDirectory tree prepared l →
    t.entries.get? l = tree.entries.get? l

namespace Laid

/-- Before the first job a tree is as it was. -/
theorem start (jobs : FileJob → Prop) (tree : FileTree) : Laid jobs tree (fun _ => False) (fun _ => False) tree where
  known _ h := h.elim
  sound _ h := h.elim
  files _ h := h.elim
  directories _ _ h := by
    obtain ⟨-, _, h, -⟩ := h
    exact h.elim
  others _ _ _ := rfl

variable {jobs : FileJob → Prop} {tree t : FileTree} {prepared landed : FileJob → Prop}

/-- Only the jobs count. -/
theorem congr (h : Laid jobs tree prepared landed t) {prepared' landed' : FileJob → Prop}
    (hprepared : ∀ j, prepared' j ↔ prepared j) (hlanded : ∀ j, landed' j ↔ landed j) :
    Laid jobs tree prepared' landed' t := by
  have hp : prepared' = prepared := funext fun j => propext (hprepared j)
  have hl : landed' = landed := funext fun j => propext (hlanded j)
  rw [hp, hl]
  exact h

/-- The jobs tell the tree. -/
theorem unique (h : Laid jobs tree prepared landed t) {t' : FileTree} (h' : Laid jobs tree prepared landed t') : t = t' := by
  have hentries : t.entries = t'.entries := by
    apply SortedMap.ext_get?
    intro l
    by_cases hland : ∃ j, landed j ∧ j.target = l
    · obtain ⟨j, hj, rfl⟩ := hland
      rw [h.files j hj, h'.files j hj]
    · have hne : ∀ j, landed j → j.target ≠ l := fun j hj heq => hland ⟨j, hj, heq⟩
      by_cases hnew : NewDirectory tree prepared l
      · rw [h.directories l hne hnew, h'.directories l hne hnew]
      · rw [h.others l hne hnew, h'.others l hne hnew]
  cases t
  cases t'
  exact congrArg FileTree.mk hentries

section Entries

variable (h : Laid jobs tree prepared landed t)

include h

/-- A landed text is a file. -/
theorem entry?_target {j : FileJob} (hj : landed j) : t.entry? j.target = some (.file (.text j.text)) := by
  have hfixed := FileTree.isFixed_of_entry? (h.sound j hj).2.2.2
  rw [FileTree.entry?_of_not_fixed hfixed, h.files j hj]

theorem contentAt?_target {j : FileJob} (hj : landed j) : t.contentAt? j.target = some (.text j.text) :=
  (t.contentAt?_eq_some_iff _ _).2 (h.entry?_target hj)

/-- What was missing and has been made is a directory. -/
theorem entry?_new {l : Place} (hl : ∀ j, landed j → j.target ≠ l) (hnew : NewDirectory tree prepared l) :
    t.entry? l = some .directory := by
  have hfixed : l.isFixed = false := FileTree.isFixed_of_entry? (by rw [hnew.1]; exact nofun)
  rw [FileTree.entry?_of_not_fixed hfixed, h.directories l hl hnew]

/-- All else is as it was. -/
theorem entry?_other {l : Place} (hl : ∀ j, landed j → j.target ≠ l) (hnew : ¬ NewDirectory tree prepared l) :
    t.entry? l = tree.entry? l := by
  unfold FileTree.entry?
  rw [h.others l hl hnew]

/-- Away from the landed texts no file has changed. -/
theorem contentAt?_other {l : Place} (hl : ∀ j, landed j → j.target ≠ l) : t.contentAt? l = tree.contentAt? l := by
  by_cases hnew : NewDirectory tree prepared l
  · rw [FileTree.contentAt?_of_directory (h.entry?_new hl hnew), FileTree.contentAt?_of_none hnew.1]
  · exact FileTree.contentAt?_congr (h.entry?_other hl hnew)

/-- The tree has grown by the landed texts and by directories on the way of what is prepared. -/
theorem grows : tree.Grows (fun l => ∃ j, landed j ∧ j.target = l) (fun l => ∃ j, prepared j ∧ l ∈ j.way) t where
  directories l hl := by
    have hne : ∀ j, landed j → j.target ≠ l := by
      rintro j hj rfl
      exact (h.sound j hj).2.2.2 hl
    have hsome : tree.entry? l ≠ none := by
      rw [hl]
      exact nofun
    rw [h.entry?_other hne fun hnew => hsome hnew.1, hl]
  files l hl := by
    by_cases hland : ∃ j, landed j ∧ j.target = l
    · obtain ⟨j, hj, rfl⟩ := hland
      rw [h.contentAt?_target hj]
      exact nofun
    · rw [h.contentAt?_other fun j hj heq => hland ⟨j, hj, heq⟩]
      exact hl
  others l hl := h.contentAt?_other fun j hj heq => hl ⟨j, hj, heq⟩
  fresh l hnone hdir := by
    have hne : ∀ j, landed j → j.target ≠ l := by
      rintro j hj rfl
      rw [h.entry?_target hj] at hdir
      cases hdir
    by_cases hnew : NewDirectory tree prepared l
    · obtain ⟨-, j, hj, hmem⟩ := hnew
      exact ⟨j, hj, FileJob.mem_way_of_mem_made hmem⟩
    · rw [h.entry?_other hne hnew, hnone] at hdir
      cases hdir

variable (hjobs : FileJob.Apart jobs)

include hjobs

/-- No text has landed on the way of a job. -/
theorem target_ne_of_mem_way {j : FileJob} (hj : jobs j) {l : Place} (hl : l ∈ j.way) : ∀ k, landed k → k.target ≠ l := by
  rintro k hk rfl
  obtain ⟨hknown, -, hout, -⟩ := h.sound k hk
  exact hout (hjobs.ways k j hknown hj hl)

/-- The way of a job is one of directories when it has made them and found no file. -/
theorem directory_of_mem_way {j : FileJob} (hj : prepared j) (hclear : j.Clear tree) {l : Place} (hl : l ∈ j.way) :
    t.entry? l = some .directory := by
  have hne := h.target_ne_of_mem_way hjobs (h.known j hj) hl
  by_cases hnone : tree.entry? l = none
  · exact h.entry?_new hne ⟨hnone, j, hj, by rw [FileJob.made_of_clear hclear]; exact hl⟩
  · rw [h.entry?_other hne fun hnew => hnone hnew.1]
    by_contra hdir
    exact hnone (FileTree.entry?_eq_none_of (hclear l hl) hdir)

/-- When the way is one of directories, the target is a directory exactly if the text cannot be written. -/
theorem target_directory_iff {j : FileJob} (hj : prepared j) (hclear : j.Clear tree) :
    t.entry? j.target = some .directory ↔ ¬ j.Lands tree := by
  constructor
  · rintro hdir ⟨-, hout, hfree⟩
    have hne : ∀ k, landed k → k.target ≠ j.target := by
      intro k hk heq
      rw [← heq, h.entry?_target hk] at hdir
      cases hdir
    by_cases hnew : NewDirectory tree prepared j.target
    · obtain ⟨-, k, hk, hmem⟩ := hnew
      exact hout (hjobs.ways j k (h.known j hj) (h.known k hk) (FileJob.mem_way_of_mem_made hmem))
    · rw [h.entry?_other hne hnew] at hdir
      exact hfree hdir
  · intro hlands
    by_cases hway : j.target ∈ j.way
    · exact h.directory_of_mem_way hjobs hj hclear hway
    · refine h.grows.directories _ ?_
      by_contra hdir
      exact hlands ⟨hclear, hway, hdir⟩

/-! ## The two steps of a write -/

/-- A job makes its directories, up to the first file that was on its way from the start. -/
theorem make {j : FileJob} (hj : jobs j) {t' : FileTree} {r : Except FileFault Unit}
    (hmake : t.makeFrom (.start j.path) (Path.steps j.path).dropLast = (t', r)) :
    Laid jobs tree (fun k => prepared k ∨ k = j) landed t' ∧ (r = .ok () ↔ j.Clear tree) := by
  have hcontent : ∀ l ∈ j.way, t.contentAt? l = tree.contentAt? l := fun l hl =>
    h.contentAt?_other (h.target_ne_of_mem_way hjobs hj hl)
  have hget : ∀ l, t'.entries.get? l = if l ∈ j.made tree ∧ t.entry? l = none then some .directory
      else t.entries.get? l := by
    intro l
    have hentries := t.entries_makeFrom (.start j.path) (Path.steps j.path).dropLast l
    rw [hmake] at hentries
    rw [hentries, ← FileJob.made_congr hcontent]
    rfl
  constructor
  · refine { known := ?_, sound := h.sound, files := ?_, directories := ?_, others := ?_ }
    · rintro k (hk | rfl)
      · exact h.known k hk
      · exact hj
    · intro k hk
      have hsome : t.entry? k.target ≠ none := by
        rw [h.entry?_target hk]
        exact nofun
      rw [hget, if_neg fun hnew => hsome hnew.2, h.files k hk]
    · rintro l hne ⟨hnone, k, hk, hmem⟩
      rw [hget]
      by_cases hold : NewDirectory tree prepared l
      · rw [h.directories l hne hold, ite_self]
      · -- nobody has made the directory so far, so it is this job that makes it
        have hentry : t.entry? l = none := by rw [h.entry?_other hne hold, hnone]
        rcases hk with hk | rfl
        · exact absurd ⟨hnone, k, hk, hmem⟩ hold
        · rw [if_pos ⟨hmem, hentry⟩]
    · intro l hne hnew
      have hold : ¬ NewDirectory tree prepared l := by
        rintro ⟨hnone, k, hk, hmem⟩
        exact hnew ⟨hnone, k, .inl hk, hmem⟩
      have hmake : ¬ (l ∈ j.made tree ∧ t.entry? l = none) := by
        rintro ⟨hmem, hnone⟩
        rw [h.entry?_other hne hold] at hnone
        exact hnew ⟨hnone, j, .inr rfl, hmem⟩
      rw [hget, if_neg hmake, h.others l hne hold]
  · have hok := t.makeFrom_ok_iff (.start j.path) (Path.steps j.path).dropLast
    rw [hmake] at hok
    rw [hok]
    exact forall₂_congr fun l hl => by rw [hcontent l hl]

/-- A job that has made its directories and found no file writes its text exactly if it lands. -/
theorem write {j : FileJob} (hj : prepared j) (hclear : j.Clear tree) :
    (j.Lands tree → ∃ t', t.write j.path (.text j.text) = .ok t' ∧
      Laid jobs tree prepared (fun k => landed k ∨ k = j) t') ∧
    (¬ j.Lands tree → ∃ f, t.write j.path (.text j.text) = .error f) := by
  obtain ⟨hpath, hend⟩ := hjobs.named j (h.known j hj)
  have hwrite : t.write j.path (.text j.text) = if t.entry? j.target = some .directory then .error .isDirectory
      else .ok (t.put j.target (.file (.text j.text))) :=
    FileTree.write_eq hpath hend (fun l hl => h.directory_of_mem_way hjobs hj hclear hl) _
  have hdir := h.target_directory_iff hjobs hj hclear
  constructor
  · intro hlands
    rw [hwrite, if_neg fun hd => hdir.1 hd hlands]
    refine ⟨_, rfl, ?_⟩
    have hoff : ∀ {l}, (∀ k, landed k ∨ k = j → k.target ≠ l) →
        (∀ k, landed k → k.target ≠ l) ∧ (t.put j.target (.file (.text j.text))).entries.get? l = t.entries.get? l := by
      intro l hne
      rw [FileTree.entries_put, if_neg (Ne.symm (hne j (.inr rfl)))]
      exact ⟨fun k hk => hne k (.inl hk), rfl⟩
    refine { known := h.known, sound := ?_, files := ?_, directories := ?_, others := ?_ }
    · rintro k (hk | rfl)
      · exact h.sound k hk
      · exact ⟨h.known k hj, hlands⟩
    · intro k hk
      by_cases heq : k.target = j.target
      · have hkj : k = j := by
          rcases hk with hk | hk
          · exact hjobs.targets k j (h.sound k hk).1 (h.known j hj) heq
          · exact hk
        subst hkj
        exact (FileTree.entries_put ..).trans (if_pos rfl)
      · rcases hk with hk | rfl
        · exact (FileTree.entries_put ..).trans ((if_neg heq).trans (h.files k hk))
        · exact absurd rfl heq
    · intro l hne hnew
      obtain ⟨hold, hsame⟩ := hoff hne
      exact hsame.trans (h.directories l hold hnew)
    · intro l hne hnew
      obtain ⟨hold, hsame⟩ := hoff hne
      exact hsame.trans (h.others l hold hnew)
  · intro hlands
    rw [hwrite, if_pos (hdir.2 hlands)]
    exact ⟨_, rfl⟩

/-- A job makes its directories and then writes its text exactly if it lands. -/
theorem writeWithParents {j : FileJob} (hj : jobs j) {t' : FileTree} {r : Except FileFault Unit}
    (hwrite : t.writeWithParents j.path (.text j.text) = (t', r)) :
    Laid jobs tree (fun k => prepared k ∨ k = j) (fun k => landed k ∨ k = j ∧ j.Lands tree) t' ∧
      (r = .ok () ↔ j.Lands tree) := by
  have hlanded : ∀ {p : Prop}, ¬ p → ∀ k, (landed k ∨ k = j ∧ p) ↔ landed k := fun hp k => by simp [hp]
  unfold FileTree.writeWithParents at hwrite
  split at hwrite
  next t₁ f hmake =>
    obtain ⟨hlaid, hclear⟩ := h.make hjobs hj hmake
    have hlands : ¬ j.Lands tree := fun hlands => by cases hclear.2 hlands.1
    cases hwrite
    exact ⟨hlaid.congr (fun _ => Iff.rfl) (hlanded hlands), iff_of_false (fun heq => by cases heq) hlands⟩
  next t₁ hmake =>
    obtain ⟨hlaid, hclear⟩ := h.make hjobs hj hmake
    obtain ⟨hok, herror⟩ := hlaid.write hjobs (.inr rfl) (hclear.1 rfl)
    by_cases hlands : j.Lands tree
    · obtain ⟨t₂, heq, hlaid⟩ := hok hlands
      rw [heq] at hwrite
      cases hwrite
      exact ⟨hlaid.congr (fun _ => Iff.rfl) fun k => by simp [hlands], iff_of_true rfl hlands⟩
    · obtain ⟨f, heq⟩ := herror hlands
      rw [heq] at hwrite
      cases hwrite
      exact ⟨hlaid.congr (fun _ => Iff.rfl) (hlanded hlands), iff_of_false (fun heq => by cases heq) hlands⟩

end Entries

end Laid

/-! ## File sets -/

namespace FileSet

/-- The job of writing a text at a path below a directory. -/
def job (dir path text : String) : FileJob := ⟨Path.join dir path, text⟩

/-- The jobs of what is to be done in a directory. -/
def JobOf (dir : String) (os : List (String × Outcome)) (j : FileJob) : Prop :=
  ∃ path text, (path, Outcome.write text) ∈ os ∧ j = job dir path text

/-- What becomes of a file. -/
inductive Fate where
  | written
  | failed
  | skipped
  deriving DecidableEq

/-- What becomes of a file is told by what is to be done with it and by the tree before the first write. -/
def fate (dir : String) (tree : FileTree) (file : String × Outcome) : Fate :=
  match file.2 with
  | .fail => .failed
  | .skip => .skipped
  | .write text => if (job dir file.1 text).Lands tree then .written else .failed

/-- The files of a fate, in order. -/
def ofFate (dir : String) (tree : FileTree) (os : List (String × Outcome)) (f : Fate) : List String :=
  (os.filter fun file => decide (fate dir tree file = f)).map Prod.fst

/-- The report on what becomes of files. -/
def fates (dir : String) (tree : FileTree) (os : List (String × Outcome)) : Report :=
  ⟨ofFate dir tree os .written, ofFate dir tree os .failed, ofFate dir tree os .skipped⟩

theorem ofFate_append (dir : String) (tree : FileTree) (os os' : List (String × Outcome)) (f : Fate) :
    ofFate dir tree (os ++ os') f = ofFate dir tree os f ++ ofFate dir tree os' f := by
  simp [ofFate]

theorem jobOf_concat (dir : String) (os : List (String × Outcome)) (file : String × Outcome) (j : FileJob) :
    JobOf dir (os ++ [file]) j ↔ JobOf dir os j ∨ ∃ text, file.2 = .write text ∧ j = job dir file.1 text := by
  obtain ⟨path, outcome⟩ := file
  simp only [JobOf, List.mem_append, List.mem_singleton, Prod.mk.injEq]
  constructor
  · rintro ⟨p, text, hmem | ⟨rfl, rfl⟩, rfl⟩
    · exact .inl ⟨p, text, hmem, rfl⟩
    · exact .inr ⟨text, rfl, rfl⟩
  · rintro (⟨p, text, hmem, rfl⟩ | ⟨text, rfl, rfl⟩)
    · exact ⟨p, text, .inl hmem, rfl⟩
    · exact ⟨path, text, .inr ⟨rfl, rfl⟩, rfl⟩

/-- Carrying out what is to be done, one file after the other, lays the jobs and reports the fates. -/
theorem foldl_step {jobs : FileJob → Prop} (hjobs : FileJob.Apart jobs) (dir : String) (tree : FileTree)
    (os : List (String × Outcome)) (hos : ∀ j, JobOf dir os j → jobs j) :
    Laid jobs tree (JobOf dir os) (fun j => JobOf dir os j ∧ j.Lands tree) (os.foldl (step dir) (tree, .empty)).1 ∧
      (os.foldl (step dir) (tree, .empty)).2 = fates dir tree os := by
  induction os using List.reverseRecOn with
  | nil =>
    refine ⟨(Laid.start jobs tree).congr ?_ ?_, rfl⟩
    · rintro j
      simp [JobOf]
    · rintro j
      simp [JobOf]
  | append_singleton os file ih =>
    obtain ⟨hlaid, hreport⟩ := ih fun j hj => hos j ((jobOf_concat ..).2 (.inl hj))
    rw [List.foldl_append, List.foldl_cons, List.foldl_nil]
    generalize os.foldl (step dir) (tree, .empty) = state at hlaid hreport
    obtain ⟨t, report⟩ := state
    simp only at hlaid hreport
    subst hreport
    obtain ⟨path, outcome⟩ := file
    simp only [fates, ofFate_append]
    cases outcome with
    | fail =>
      refine ⟨hlaid.congr (fun j => by simp [jobOf_concat]) fun j => by simp [jobOf_concat], ?_⟩
      simp [step, ofFate, fate]
    | skip =>
      refine ⟨hlaid.congr (fun j => by simp [jobOf_concat]) fun j => by simp [jobOf_concat], ?_⟩
      simp [step, ofFate, fate]
    | write text =>
      have hj : jobs (job dir path text) := hos _ ((jobOf_concat ..).2 (.inr ⟨text, rfl, rfl⟩))
      cases hwrite : t.writeWithParents (Path.join dir path) (.text text) with
      | mk t' r =>
        obtain ⟨hlaid, hok⟩ := hlaid.writeWithParents hjobs (j := job dir path text) hj hwrite
        have hjob : ∀ j, JobOf dir (os ++ [(path, .write text)]) j ↔ JobOf dir os j ∨ j = job dir path text := by
          intro j
          simp [jobOf_concat]
        have hlands : ∀ j, (JobOf dir (os ++ [(path, .write text)]) j ∧ j.Lands tree) ↔
            (JobOf dir os j ∧ j.Lands tree) ∨ j = job dir path text ∧ (job dir path text).Lands tree := by
          intro j
          rw [hjob, or_and_right]
          exact or_congr_right (and_congr_right fun heq => by rw [heq])
        cases r with
        | ok _ =>
          have hland : (job dir path text).Lands tree := hok.1 rfl
          simp only [step, hwrite]
          exact ⟨hlaid.congr hjob hlands, by simp [ofFate, fate, hland]⟩
        | error f =>
          have hland : ¬ (job dir path text).Lands tree := fun hland => by cases hok.2 hland
          simp only [step, hwrite]
          exact ⟨hlaid.congr hjob hlands, by simp [ofFate, fate, hland]⟩

/-! ## Separate files -/

theorem mem_outcomes_iff (files : FileSet) (templates : TemplateStore) (tree : FileTree) (path : String) (o : Outcome) :
    (path, o) ∈ files.outcomes templates tree ↔
      ∃ content, files.get? path = some content ∧ o = outcome templates tree path content := by
  simp only [outcomes, SortedMap.toList, List.mem_map, Prod.mk.injEq, Prod.exists, SortedMap.get?_eq_some_iff]
  constructor
  · rintro ⟨p, content, hmem, rfl, rfl⟩
    exact ⟨content, hmem, rfl⟩
  · rintro ⟨content, hmem, rfl⟩
    exact ⟨path, content, hmem, rfl, rfl⟩

end FileSet

/-- Two results with the same value, if any, are both errors or both that value. -/
theorem cases_of_toOption_eq {ε α : Type} {x y : Except ε α} (h : x.toOption = y.toOption) :
    (∃ e e', x = .error e ∧ y = .error e') ∨ ∃ a, x = .ok a ∧ y = .ok a := by
  cases x with
  | error e =>
    cases y with
    | error e' => exact .inl ⟨e, e', rfl, rfl⟩
    | ok b => cases h
  | ok a =>
    cases y with
    | error e' => cases h
    | ok b =>
      cases h
      exact .inr ⟨a, rfl, rfl⟩

/-- A content depends, besides the path of its file, on the templates of some names only: its text is the same, or there is
none, in trees in which these read alike. -/
def FileContent.MadeFrom (content : FileContent) (path : String) (templates : TemplateStore) (names : List String) : Prop :=
  ∀ t t', (∀ n ∈ names, (templates.read t n).toOption = (templates.read t' n).toOption) →
    (content.resolve ⟨path, templates, t⟩).toOption = (content.resolve ⟨path, templates, t'⟩).toOption

/-- A given text and a path are made from no template, a copy from the template that is copied, and a filled template from
the template of its file. -/
theorem FileContent.madeFrom (path : String) (templates : TemplateStore) :
    (∀ s, (text s).MadeFrom path templates []) ∧ ownPath.MadeFrom path templates [] ∧
      (∀ n, (copied n).MadeFrom path templates [n]) ∧
      ∀ data, (rendered data).MadeFrom path templates [path ++ ".hbs"] := by
  refine ⟨fun s t t' _ => rfl, fun t t' _ => rfl, fun n t t' h => h n List.mem_cons_self, fun data t t' h => ?_⟩
  simp only [rendered, resolve, FileScope.render, TemplateStore.render]
  rcases cases_of_toOption_eq (h _ List.mem_cons_self) with ⟨e, e', he, he'⟩ | ⟨s, hs, hs'⟩
  · rw [he, he']
    rfl
  · rw [hs, hs']

namespace FileSet

/-- What is to be done with a file depends only on its text. -/
theorem outcome_congr {templates : TemplateStore} {t t' : FileTree} {path : String} {content : FileContent}
    (h : (content.resolve ⟨path, templates, t⟩).toOption = (content.resolve ⟨path, templates, t'⟩).toOption) :
    outcome templates t path content = outcome templates t' path content := by
  unfold outcome
  rcases cases_of_toOption_eq h with ⟨e, e', he, he'⟩ | ⟨s, hs, hs'⟩
  · rw [he, he']
  · rw [hs, hs']

/-- A path leads to none of the places of the files, and turns back from no directory that is missing on the way to one. -/
def Avoided (files : FileSet) (dir : String) (tree : FileTree) (path : String) : Prop :=
  ∀ q ∈ files.keys, Place.ofPath (Path.join dir q) ≠ Place.ofPath path ∧
    ∀ l ∈ Place.turns path, tree.entry? l = none → l ∉ Place.above (Path.join dir q)

instance (files : FileSet) (dir : String) (tree : FileTree) (path : String) : Decidable (files.Avoided dir tree path) :=
  inferInstanceAs (Decidable (∀ q ∈ _, _))

/-- A content is made from templates that are not where the files of the set go, and that are not read by way of a directory
which these make. -/
def ReadsApart (files : FileSet) (dir : String) (templates : TemplateStore) (tree : FileTree) (path : String)
    (content : FileContent) : Prop :=
  ∃ names, content.MadeFrom path templates names ∧
    ∀ root, templates = .directory root → ∀ n ∈ names, files.Avoided dir tree (Path.join root n)

/-- Given texts are made from no template. -/
theorem readsApart_text (files : FileSet) (dir : String) (templates : TemplateStore) (tree : FileTree) (path s : String) :
    files.ReadsApart dir templates tree path (.text s) :=
  ⟨[], (FileContent.madeFrom path templates).1 s, fun _ _ _ hn => absurd hn List.not_mem_nil⟩

/-- A copy is made from one template. -/
theorem readsApart_copied {files : FileSet} {dir root n : String} {tree : FileTree}
    (h : files.Avoided dir tree (Path.join root n)) (path : String) :
    files.ReadsApart dir (.directory root) tree path (.copied n) := by
  refine ⟨[n], (FileContent.madeFrom path _).2.2.1 n, ?_⟩
  intro root' hroot k hk
  cases hroot
  rw [List.mem_singleton.1 hk]
  exact h

/-- Files that can be written beside each other into a directory of a tree: their paths are plain and none is above another,
no template that is read is where one of them goes, and none is read by a path that turns back from a directory which is still
to be made for one of them. -/
structure Separate (files : FileSet) (dir : String) (templates : TemplateStore) (tree : FileTree) : Prop where
  rooted : tree.Rooted
  plain : ∀ p ∈ files.keys, Path.Plain p
  apart : ∀ p ∈ files.keys, ∀ q ∈ files.keys, Path.steps p <+: Path.steps q → p = q
  reads : ∀ p content, files.get? p = some content → files.ReadsApart dir templates tree p content

namespace Separate

variable {files : FileSet} {dir : String} {templates : TemplateStore} {tree : FileTree}

/-- Different files go to different places. -/
theorem target_inj (h : files.Separate dir templates tree) {p q : String} (hp : p ∈ files.keys) (hq : q ∈ files.keys)
    (heq : Place.ofPath (Path.join dir p) = Place.ofPath (Path.join dir q)) : p = q := by
  rw [Place.ofPath_join (h.plain p hp), Place.ofPath_join (h.plain q hq)] at heq
  exact h.apart p hp q hq (List.append_cancel_left heq ▸ List.prefix_refl _)

/-- The jobs of separate files are apart. -/
theorem apart_jobs (h : files.Separate dir templates tree) :
    FileJob.Apart (JobOf dir (files.outcomes templates tree)) := by
  have hkey : ∀ {p : String} {o : Outcome}, (p, o) ∈ files.outcomes templates tree → p ∈ files.keys := by
    intro p o hmem
    obtain ⟨content, hget, -⟩ := (mem_outcomes_iff ..).1 hmem
    exact files.mem_keys_of_get? hget
  refine { named := ?_, targets := ?_, ways := ?_ }
  · rintro j ⟨p, text, hmem, rfl⟩
    obtain ⟨hne, -, -, hend⟩ := (h.plain p (hkey hmem)).of_join dir
    exact ⟨hne, hend⟩
  · rintro j k ⟨p, text, hp, rfl⟩ ⟨q, text', hq, rfl⟩ heq
    have hpq := h.target_inj (hkey hp) (hkey hq) heq
    subst hpq
    obtain ⟨content, hget, ho⟩ := (mem_outcomes_iff ..).1 hp
    obtain ⟨content', hget', ho'⟩ := (mem_outcomes_iff ..).1 hq
    rw [hget] at hget'
    cases hget'
    rw [← ho'] at ho
    cases ho
    rfl
  · rintro j k ⟨p, text, hp, rfl⟩ ⟨q, text', hq, rfl⟩ hmem
    have hplain := h.plain p (hkey hp)
    have hplain' := h.plain q (hkey hq)
    simp only [FileJob.target, FileJob.way, job, Place.above_join hplain, Place.above_join hplain',
      List.mem_append] at hmem ⊢
    rcases hmem with hmem | hmem
    · exact .inl hmem
    · -- on the way down to another file, so the path is above the other and hence the same
      have hup : ".." ∉ (Path.steps q).dropLast := fun hup => hplain'.up_not_mem (List.dropLast_subset _ hup)
      obtain ⟨pre, hpre, heq⟩ := Place.prefix_of_mem_trail hup hmem
      rw [Place.ofPath_join hplain] at heq
      have hpq : p = q := by
        refine h.apart p (hkey hp) q (hkey hq) ?_
        rw [List.append_cancel_left heq]
        exact hpre.trans (List.dropLast_prefix _)
      subst hpq
      exact .inr hmem

/-- While a tree grows at the places of its files and on the way to them only, what is to be done with each file stays the same. -/
theorem outcome_eq (h : files.Separate dir templates tree) {written made : Place → Prop} {t : FileTree}
    (hgrows : tree.Grows written made t)
    (hwritten : ∀ l, written l → ∃ q ∈ files.keys, Place.ofPath (Path.join dir q) = l)
    (hmade : ∀ l, made l → ∃ q ∈ files.keys, l ∈ Place.above (Path.join dir q))
    {path : String} {content : FileContent} (hfile : files.get? path = some content) :
    outcome templates t path content = outcome templates tree path content := by
  obtain ⟨names, hfrom, hread⟩ := h.reads path content hfile
  refine outcome_congr (hfrom t tree fun n hn => ?_)
  cases htemplates : templates with
  | builtin prefixPath texts => rfl
  | directory root =>
    have havoided := hread root htemplates n hn
    have hmapError : ∀ (x : Except FileFault String) (f : FileFault → Error), (x.mapError f).toOption = x.toOption := by
      intro x f
      cases x <;> rfl
    simp only [TemplateStore.read, hmapError]
    refine FileTree.read_congr h.rooted hgrows ?_ ?_
    · intro hin
      obtain ⟨q, hq, heq⟩ := hwritten _ hin
      exact (havoided q hq).1 heq
    · intro l hl hnone hin
      obtain ⟨q, hq, hmem⟩ := hmade l hin
      exact (havoided q hq).2 l hl hnone hmem

/-- Writing the files one after the other lays their jobs and reports their fates. -/
theorem materialize_eq (h : files.Separate dir templates tree) :
    Laid (JobOf dir (files.outcomes templates tree)) tree (JobOf dir (files.outcomes templates tree))
        (fun j => JobOf dir (files.outcomes templates tree) j ∧ j.Lands tree)
        (files.materialize dir templates tree).1 ∧
      (files.materialize dir templates tree).2 = fates dir tree (files.outcomes templates tree) :=
  foldl_step h.apart_jobs dir tree _ fun _ hj => hj

end Separate

end FileSet

end SdkLoom
