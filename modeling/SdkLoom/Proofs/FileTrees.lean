import SdkLoom.Files.Tree
import SdkLoom.Proofs.Maps

/-!
# Following paths in file trees

Where a path leads if all that it passes are directories does not depend on a tree: `Place.walk` gives the place, and
`Place.trail` the places on the way. Whether a path can be followed, made or written in a tree is told by what the tree has
on the trail. A tree grows if directories stay and only some files change (`FileTree.Grows`). While it grows, a path that
leads elsewhere reads the same, unless it turns back from a directory that is made meanwhile (`FileTree.read_congr`).
-/

namespace SdkLoom

/-! ## Paths below a directory -/

theorem Text.splitAll_ne_nil {α : Type} (p : α → Bool) (l : List α) : splitAll p l ≠ [] := by
  cases l with
  | nil => exact nofun
  | cons c rest =>
    rw [splitAll]
    split
    · exact nofun
    · split <;> exact nofun

/-- A list is cut at an element that passes the test, and on both sides of it. -/
theorem Text.splitAll_append {α : Type} {p : α → Bool} {c : α} (hc : p c = true) (a b : List α) :
    splitAll p (a ++ c :: b) = splitAll p a ++ splitAll p b := by
  induction a with
  | nil => simp [splitAll, hc]
  | cons x rest ih =>
    rw [List.cons_append, splitAll, splitAll, ih]
    split
    · rfl
    · cases hrest : splitAll p rest with
      | nil => exact absurd hrest (splitAll_ne_nil p rest)
      | cons piece pieces => rfl

namespace Path

/-- A relative path of names only. -/
def Plain (path : String) : Prop := ∀ part ∈ parts path, isStep part = true ∧ part ≠ ".."

instance (path : String) : Decidable (Plain path) := inferInstanceAs (Decidable (∀ part ∈ _, _))

theorem parts_append (a b : String) : parts (a ++ "/" ++ b) = parts a ++ parts b := by
  have hlist : (a ++ "/" ++ b).toList = a.toList ++ '/' :: b.toList := by
    simp [String.toList_append]
  rw [parts, hlist, Text.splitAll_append rfl, List.map_append, parts, parts]

theorem steps_append (a b : String) : steps (a ++ "/" ++ b) = steps a ++ steps b := by
  rw [steps, parts_append, List.filter_append, steps, steps]

section Plain

variable {path : String} (h : Plain path)

include h

/-- The parts of a plain path are its steps. -/
theorem Plain.steps_eq : steps path = parts path := List.filter_eq_self.2 fun part hpart => (h part hpart).1

theorem Plain.up_not_mem : ".." ∉ steps path := by
  rw [h.steps_eq]
  exact fun hmem => (h _ hmem).2 rfl

theorem Plain.steps_ne_nil : steps path ≠ [] := by
  rw [h.steps_eq, parts, ne_eq, List.map_eq_nil_iff]
  exact Text.splitAll_ne_nil _ _

theorem Plain.isAbsolute_eq : isAbsolute path = false := by
  rw [Bool.eq_false_iff]
  intro habs
  obtain ⟨rest, hrest⟩ := List.isPrefixOf_iff_prefix.1 habs
  have hmem : "" ∈ parts path := by
    rw [parts, ← hrest]
    exact List.mem_cons_self
  exact absurd (h "" hmem).1 (by decide)

/-- A plain path below a directory is the path after the directory's, or after a slash behind it. -/
theorem Plain.join_eq (dir : String) (hdir : dir ≠ "") :
    ∃ front, join dir path = front ++ "/" ++ path ∧ steps front = steps dir ∧
      isAbsolute (join dir path) = isAbsolute dir := by
  have habsolute : ∀ tail, isAbsolute (dir ++ tail) = isAbsolute dir := by
    intro tail
    cases hlist : dir.toList with
    | nil => exact absurd (String.toList_inj.1 (hlist.trans rfl)) hdir
    | cons c rest => simp [isAbsolute, Text.startsWith, String.toList_append, hlist, List.isPrefixOf]
  have hne : (dir == "") = false := beq_eq_false_iff_ne.2 hdir
  unfold join
  rw [h.isAbsolute_eq, hne, Bool.or_false, if_neg Bool.false_ne_true]
  split
  next hslash =>
    obtain ⟨rest, hrest⟩ := List.isPrefixOf_iff_prefix.1 hslash
    have hfront : dir = String.ofList rest.reverse ++ "/" := by
      apply String.toList_inj.1
      rw [String.toList_append, String.toList_ofList, ← List.reverse_reverse dir.toList, ← hrest, List.reverse_append]
      rfl
    refine ⟨String.ofList rest.reverse, by rw [← hfront], ?_, habsolute path⟩
    have hsteps := steps_append (String.ofList rest.reverse) ""
    rw [String.append_empty, ← hfront] at hsteps
    rw [hsteps]
    exact (List.append_nil _).symm
  next => exact ⟨dir, rfl, rfl, by rw [String.append_assoc]; exact habsolute _⟩

/-- The steps to a plain path below a directory are those to the directory and then those of the path, and the path names
no directory. -/
theorem Plain.of_join (dir : String) :
    join dir path ≠ "" ∧ Place.start (join dir path) = Place.start dir ∧
      steps (join dir path) = steps dir ++ steps path ∧ endsInDirectory (join dir path) = false := by
  have hends : ∀ {full : String} (front : List String), parts full = front ++ parts path → endsInDirectory full = false := by
    intro full front hfull
    cases hlast : (parts path).getLast? with
    | none => exact absurd (List.getLast?_eq_none_iff.1 hlast) (by rw [← h.steps_eq]; exact h.steps_ne_nil)
    | some part =>
      have hstep := (h part (List.mem_of_getLast? hlast)).1
      simp [endsInDirectory, hfull, List.getLast?_append, hlast, hstep]
  by_cases hdir : dir = ""
  · have hjoin : join dir path = path := by simp [join, hdir]
    rw [hjoin, hdir]
    refine ⟨?_, by rw [Place.start, h.isAbsolute_eq]; rfl, rfl, hends [] rfl⟩
    rintro rfl
    exact absurd (h "" List.mem_cons_self).1 (by decide)
  · obtain ⟨front, hjoin, hfront, habsolute⟩ := h.join_eq dir hdir
    refine ⟨?_, by rw [Place.start, habsolute, Place.start], ?_, ?_⟩
    · intro hempty
      have hlist := congrArg String.toList (hjoin.symm.trans hempty)
      simp [String.toList_append] at hlist
    · rw [hjoin, steps_append, hfront]
    · exact hends (parts front) (by rw [hjoin, parts_append])

end Plain

end Path

namespace Place

/-! ## Ways -/

/-- Where some steps lead if all that they pass are directories. -/
def walk : Place → List String → Place
  | here, [] => here
  | here, step :: rest => if step == ".." then walk here.up rest else walk (here ++ [step]) rest

/-- The places that some steps name on their way, in order. -/
def trail : Place → List String → List Place
  | _, [] => []
  | here, step :: rest => if step == ".." then trail here.up rest else (here ++ [step]) :: trail (here ++ [step]) rest

theorem walk_append (here : Place) (a b : List String) : walk here (a ++ b) = walk (walk here a) b := by
  induction a generalizing here with
  | nil => rfl
  | cons step rest ih =>
    simp only [List.cons_append, walk]
    split <;> exact ih _

theorem trail_append (here : Place) (a b : List String) : trail here (a ++ b) = trail here a ++ trail (walk here a) b := by
  induction a generalizing here with
  | nil => rfl
  | cons step rest ih =>
    simp only [List.cons_append, trail, walk]
    split
    · exact ih _
    · rw [ih, List.cons_append]

/-- Names lead down. -/
theorem walk_of_names {names : List String} (h : ".." ∉ names) (here : Place) : walk here names = here ++ names := by
  induction names generalizing here with
  | nil => exact (List.append_nil here).symm
  | cons name rest ih =>
    obtain ⟨hname, hrest⟩ := not_or.1 (mt List.mem_cons.2 h)
    have hstep : (name == "..") = false := beq_eq_false_iff_ne.2 (Ne.symm hname)
    rw [walk, hstep, if_neg Bool.false_ne_true, ih hrest, List.append_assoc, List.singleton_append]

/-- The places on the way down are above the last one. -/
theorem prefix_of_mem_trail {names : List String} (h : ".." ∉ names) {here l : Place} (hl : l ∈ trail here names) :
    ∃ pre, pre <+: names ∧ l = here ++ pre := by
  induction names generalizing here with
  | nil => exact absurd hl List.not_mem_nil
  | cons name rest ih =>
    obtain ⟨hname, hrest⟩ := not_or.1 (mt List.mem_cons.2 h)
    have hstep : (name == "..") = false := beq_eq_false_iff_ne.2 (Ne.symm hname)
    rw [trail, hstep, if_neg Bool.false_ne_true] at hl
    rcases List.mem_cons.1 hl with rfl | hl
    · exact ⟨[name], ⟨rest, rfl⟩, rfl⟩
    · obtain ⟨pre, hpre, rfl⟩ := ih hrest hl
      exact ⟨name :: pre, (List.prefix_cons_inj name).2 hpre, by rw [List.append_assoc, List.singleton_append]⟩

/-- Where a path leads if all that it passes are directories. -/
def ofPath (path : String) : Place := walk (start path) (Path.steps path)

/-- The places that a path passes. -/
def above (path : String) : List Place := trail (start path) (Path.steps path).dropLast

/-- The places from which steps turn back. -/
def turnsFrom : Place → List String → List Place
  | _, [] => []
  | here, step :: rest => if step == ".." then here :: turnsFrom here.up rest else turnsFrom (here ++ [step]) rest

/-- The places from which a path turns back. -/
def turns (path : String) : List Place := turnsFrom (start path) (Path.steps path)

/-- A plain path below a directory leads to its names after where the directory leads. -/
theorem ofPath_join {path : String} (h : Path.Plain path) (dir : String) :
    ofPath (Path.join dir path) = walk (start dir) (Path.steps dir) ++ Path.steps path := by
  obtain ⟨-, hstart, hsteps, -⟩ := h.of_join dir
  rw [ofPath, hstart, hsteps, walk_append, walk_of_names h.up_not_mem]

/-- The way to a plain path below a directory is the way to the directory and then the way down. -/
theorem above_join {path : String} (h : Path.Plain path) (dir : String) :
    above (Path.join dir path) =
      trail (start dir) (Path.steps dir) ++ trail (walk (start dir) (Path.steps dir)) (Path.steps path).dropLast := by
  obtain ⟨-, hstart, hsteps, -⟩ := h.of_join dir
  rw [above, hstart, hsteps, List.dropLast_append_of_ne_nil h.steps_ne_nil, trail_append]

end Place

namespace FileTree

/-! ## Look-ups and changes -/

/-- What the file at a place holds, if there is one. -/
def contentAt? (t : FileTree) (l : Place) : Option Content :=
  match t.entry? l with
  | some (.file c) => some c
  | _ => none

theorem contentAt?_eq_some_iff (t : FileTree) (l : Place) (c : Content) :
    t.contentAt? l = some c ↔ t.entry? l = some (.file c) := by
  unfold contentAt?
  split
  next c' h => simp [h]
  next h =>
    constructor
    · intro hc
      cases hc
    · intro hc
      exact absurd hc (h c)

theorem contentAt?_congr {t t' : FileTree} {l : Place} (h : t.entry? l = t'.entry? l) :
    t.contentAt? l = t'.contentAt? l := by
  rw [contentAt?, h, contentAt?]

theorem contentAt?_of_directory {t : FileTree} {l : Place} (h : t.entry? l = some .directory) : t.contentAt? l = none := by
  rw [contentAt?, h]

theorem contentAt?_of_none {t : FileTree} {l : Place} (h : t.entry? l = none) : t.contentAt? l = none := by
  rw [contentAt?, h]

/-- What is no directory at a place that has no file is nothing. -/
theorem entry?_eq_none_of {t : FileTree} {l : Place} (hc : t.contentAt? l = none) (hd : t.entry? l ≠ some .directory) :
    t.entry? l = none := by
  cases he : t.entry? l with
  | none => rfl
  | some e =>
    cases e with
    | directory => exact absurd he hd
    | file c =>
      rw [(t.contentAt?_eq_some_iff l c).2 he] at hc
      cases hc

theorem isFixed_of_entry? {t : FileTree} {l : Place} (h : t.entry? l ≠ some .directory) : l.isFixed = false := by
  rw [Bool.eq_false_iff]
  intro hfixed
  exact h (if_pos hfixed)

theorem entries_put (t : FileTree) (l : Place) (e : FileEntry) (k : Place) :
    (t.put l e).entries.get? k = if k = l then some e else t.entries.get? k :=
  SortedMap.get?_insert t.entries l k e

theorem entry?_of_fixed {l : Place} (h : l.isFixed = true) (t : FileTree) : t.entry? l = some .directory := by
  unfold entry?
  rw [if_pos h]

/-- Paths start from directories. -/
theorem entry?_start (t : FileTree) (path : String) : t.entry? (.start path) = some .directory := by
  refine entry?_of_fixed ?_ t
  unfold Place.start
  split <;> rfl

theorem entry?_of_not_fixed {l : Place} (h : l.isFixed = false) (t : FileTree) : t.entry? l = t.entries.get? l := by
  unfold entry?
  rw [h, if_neg Bool.false_ne_true]

theorem entry?_put {t : FileTree} {l : Place} (h : l.isFixed = false) (e : FileEntry) (k : Place) :
    FileTree.entry? (t.put l e) k = if k = l then some e else t.entry? k := by
  unfold entry?
  rw [entries_put]
  by_cases hk : k = l
  · simp [hk, h]
  · simp [hk]

/-- A new directory changes no content. -/
theorem contentAt?_put_directory {t : FileTree} {l : Place} (h : t.entry? l = none) (p : Place) :
    (t.put l .directory).contentAt? p = t.contentAt? p := by
  have hfixed : l.isFixed = false := isFixed_of_entry? (by rw [h]; exact nofun)
  by_cases hp : p = l
  · rw [hp, contentAt?_of_none h, contentAt?_of_directory]
    rw [entry?_put hfixed, if_pos rfl]
  · exact contentAt?_congr (by rw [entry?_put hfixed, if_neg hp])

/-! ## Following, making and writing -/

/-- Steps can be followed exactly if all that they name are directories. -/
theorem enter_eq_ok_iff (t : FileTree) (here : Place) (steps : List String) (l : Place) :
    t.enter here steps = .ok l ↔ (∀ p ∈ Place.trail here steps, t.entry? p = some .directory) ∧ l = Place.walk here steps := by
  induction steps generalizing here with
  | nil => simp [enter, Place.trail, Place.walk, eq_comm]
  | cons step rest ih =>
    simp only [enter, Place.trail, Place.walk]
    split
    · exact ih _
    · split
      next he => simp [he]
      next c he => simp [he]
      next he => simp [he, ih]

/-- A path whose way is a way of directories is located where it leads. -/
theorem locate_eq {t : FileTree} {path : String} (hpath : path ≠ "")
    (h : ∀ p ∈ Place.above path, t.entry? p = some .directory) : t.locate path = .ok (Place.ofPath path) := by
  have hne : (path == "") = false := beq_eq_false_iff_ne.2 hpath
  unfold locate
  rw [hne, if_neg Bool.false_ne_true]
  dsimp only
  split
  next hlast =>
    rw [List.getLast?_eq_none_iff] at hlast
    rw [Place.ofPath, hlast, Place.walk]
  next last hlast =>
    have hsplit : Path.steps path = (Path.steps path).dropLast ++ [last] := by
      rw [List.dropLast_append_getLast? last hlast]
    have henter := (t.enter_eq_ok_iff (.start path) (Path.steps path).dropLast _).2 ⟨h, rfl⟩
    rw [henter, Place.ofPath]
    conv_rhs => rw [hsplit, Place.walk_append]
    simp only [Place.walk]
    rfl

/-- A path can be located only over directories. -/
theorem above_of_locate {t : FileTree} {path : String} {l : Place} (h : t.locate path = .ok l) :
    path ≠ "" ∧ ∀ p ∈ Place.above path, t.entry? p = some .directory := by
  unfold locate at h
  split at h
  · cases h
  next hne =>
    refine ⟨by simpa using hne, ?_⟩
    dsimp only at h
    split at h
    next hlast =>
      rw [List.getLast?_eq_none_iff] at hlast
      rw [Place.above, hlast]
      exact fun _ hp => absurd hp List.not_mem_nil
    next last hlast =>
      cases henter : t.enter (.start path) (Path.steps path).dropLast with
      | error f =>
        rw [henter] at h
        cases h
      | ok dir => exact ((t.enter_eq_ok_iff _ _ _).1 henter).1

/-- A path reads as the text of the file where it leads, over directories. -/
theorem read_eq_ok_iff (t : FileTree) (path s : String) :
    t.read path = .ok s ↔ path ≠ "" ∧ Path.endsInDirectory path = false ∧
      (∀ p ∈ Place.above path, t.entry? p = some .directory) ∧ t.contentAt? (Place.ofPath path) = some (.text s) := by
  rw [contentAt?_eq_some_iff]
  constructor
  · intro h
    unfold read find at h
    cases hlocate : t.locate path with
    | error f =>
      rw [hlocate] at h
      cases h
    | ok l =>
      obtain ⟨hpath, habove⟩ := above_of_locate hlocate
      rw [locate_eq hpath habove] at h
      simp only [bind, Except.bind] at h
      cases hentry : t.entry? (Place.ofPath path) with
      | none =>
        simp only [hentry] at h
        cases h
      | some e =>
        cases e with
        | directory =>
          simp only [hentry] at h
          cases h
        | file c =>
          simp only [hentry] at h
          cases hend : Path.endsInDirectory path with
          | true =>
            simp only [hend] at h
            cases h
          | false =>
            simp only [hend] at h
            cases c with
            | text s' =>
              cases h
              exact ⟨hpath, rfl, habove, rfl⟩
            | binary bytes => cases h
  · rintro ⟨hpath, hend, habove, hentry⟩
    unfold read find
    rw [locate_eq hpath habove]
    simp only [bind, Except.bind, hentry, hend]
    rfl

/-- Making directories makes those that are missing on the way, up to the first file. -/
theorem entries_makeFrom (t : FileTree) (here : Place) (steps : List String) (l : Place) :
    (t.makeFrom here steps).1.entries.get? l =
      if l ∈ (Place.trail here steps).takeWhile (fun p => (t.contentAt? p).isNone) ∧ t.entry? l = none then some .directory
      else t.entries.get? l := by
  induction steps generalizing t here with
  | nil => simp [makeFrom, Place.trail]
  | cons step rest ih =>
    simp only [makeFrom, Place.trail]
    split
    · exact ih t _
    · split
      next c he =>
        have hc : (t.contentAt? (here ++ [step])).isNone = false := by
          rw [(t.contentAt?_eq_some_iff _ c).2 he]
          rfl
        simp [hc]
      next he =>
        rw [ih, List.takeWhile_cons, contentAt?_of_directory he]
        have hne : t.entry? l = none → l ≠ here ++ [step] := by
          rintro hl rfl
          rw [he] at hl
          cases hl
        by_cases hl : t.entry? l = none
        · simp [hl, hne hl]
        · simp [hl]
      next he =>
        have hfixed : Place.isFixed (here ++ [step]) = false := isFixed_of_entry? (by rw [he]; exact nofun)
        rw [ih, List.takeWhile_cons, contentAt?_of_none he, entries_put, entry?_put hfixed]
        simp only [contentAt?_put_directory he]
        by_cases hl : l = here ++ [step]
        · simp [hl, he]
        · simp [hl]

/-- Making directories succeeds exactly if there is no file on the way. -/
theorem makeFrom_ok_iff (t : FileTree) (here : Place) (steps : List String) :
    (t.makeFrom here steps).2 = .ok () ↔ ∀ p ∈ Place.trail here steps, t.contentAt? p = none := by
  induction steps generalizing t here with
  | nil => simp [makeFrom, Place.trail]
  | cons step rest ih =>
    simp only [makeFrom, Place.trail]
    split
    · exact ih t _
    · rw [List.forall_mem_cons]
      split
      next c he =>
        refine iff_of_false (fun h => by cases h) fun h => ?_
        rw [(t.contentAt?_eq_some_iff _ c).2 he] at h
        exact absurd h.1 nofun
      next he =>
        rw [ih, contentAt?_of_directory he]
        simp
      next he =>
        rw [ih, contentAt?_of_none he]
        simp [contentAt?_put_directory he]

/-- A file is written over directories where it leads, unless that is a directory. -/
theorem write_eq {t : FileTree} {path : String} (hpath : path ≠ "") (hend : Path.endsInDirectory path = false)
    (h : ∀ p ∈ Place.above path, t.entry? p = some .directory) (c : Content) :
    t.write path c = if t.entry? (Place.ofPath path) = some .directory then .error .isDirectory
      else .ok (t.put (Place.ofPath path) (.file c)) := by
  unfold write
  rw [locate_eq hpath h]
  simp only [bind, Except.bind, hend]
  cases t.entry? (Place.ofPath path) with
  | none => rfl
  | some e => cases e <;> rfl

/-- A file that has been written is read as what was written. -/
theorem read_of_write {t t' : FileTree} {path s : String} (h : t.write path (.text s) = .ok t') : t'.read path = .ok s := by
  cases hlocate : t.locate path with
  | error f =>
    rw [write, hlocate] at h
    cases h
  | ok l =>
    obtain ⟨hpath, habove⟩ := above_of_locate hlocate
    have hend : Path.endsInDirectory path = false := by
      cases hend : Path.endsInDirectory path with
      | false => rfl
      | true =>
        rw [write, hlocate] at h
        simp only [bind, Except.bind, hend, if_true] at h
        split at h <;> cases h
    rw [write_eq hpath hend habove] at h
    split at h
    next => cases h
    next hentry =>
      cases h
      have hfixed := isFixed_of_entry? hentry
      refine (read_eq_ok_iff _ _ _).2 ⟨hpath, hend, fun p hp => ?_, ?_⟩
      · rw [entry?_put hfixed, if_neg, habove p hp]
        rintro rfl
        exact hentry (habove _ hp)
      · rw [contentAt?_eq_some_iff, entry?_put hfixed, if_pos rfl]

/-! ## Growing trees -/

/-- All that a tree has is in a directory. -/
def Rooted (t : FileTree) : Prop := ∀ l, t.entry? l ≠ none → t.entry? l.dropLast = some .directory

/-- It is enough that all entries are in directories. -/
theorem rooted_of_entries {t : FileTree} (h : ∀ e ∈ t.entries.toList, t.entry? e.1.dropLast = some .directory) : t.Rooted := by
  intro l hl
  cases hfixed : l.isFixed with
  | true =>
    have habove : Place.isFixed l.dropLast = true := by
      simp only [Place.isFixed, Bool.or_eq_true, beq_iff_eq, List.all_eq_true] at hfixed ⊢
      rcases hfixed with rfl | hup
      · exact .inr fun _ h => by cases h
      · exact .inr fun s hs => hup s (List.dropLast_subset _ hs)
    exact entry?_of_fixed habove t
  | false =>
    rw [entry?_of_not_fixed hfixed] at hl
    obtain ⟨e, he⟩ := Option.ne_none_iff_exists'.1 hl
    exact h (l, e) (t.entries.get?_eq_some_iff.1 he)

/-- One tree comes of another by making directories at some places where nothing was and by writing files at others. -/
structure Grows (written made : Place → Prop) (t t' : FileTree) : Prop where
  directories : ∀ l, t.entry? l = some .directory → t'.entry? l = some .directory
  files : ∀ l, t.contentAt? l ≠ none → t'.contentAt? l ≠ none
  others : ∀ l, ¬ written l → t'.contentAt? l = t.contentAt? l
  fresh : ∀ l, t.entry? l = none → t'.entry? l = some .directory → made l

section Rooted

variable {t : FileTree} (ht : t.Rooted)

include ht

/-- Below what is missing there is nothing. -/
theorem entry?_below {here : Place} (h : t.entry? here = none) (name : String) : t.entry? (here ++ [name]) = none := by
  by_contra hne
  have hdir := ht _ hne
  rw [List.dropLast_concat, h] at hdir
  cases hdir

/-- Above what is there is a directory. -/
theorem entry?_up {here : Place} (h : t.entry? here ≠ none) : t.entry? here.up = some .directory := by
  unfold Place.up
  split
  · exact entry?_of_fixed rfl t
  next hroot =>
    split
    next hfixed =>
      refine entry?_of_fixed ?_ t
      simp only [Place.isFixed, hroot, Bool.false_or] at hfixed
      simp [Place.isFixed, hfixed]
    next => exact ht here h

/-- Steps that start where nothing is, and do not step up from there, lead nowhere. -/
theorem entry?_walk_of_none {here : Place} {steps : List String} (hturns : ∀ p ∈ Place.turnsFrom here steps, t.entry? p ≠ none)
    (hnone : t.entry? here = none) : t.entry? (Place.walk here steps) = none := by
  induction steps generalizing here with
  | nil => exact hnone
  | cons step rest ih =>
    simp only [Place.turnsFrom] at hturns
    simp only [Place.walk]
    split at hturns
    next hup => exact absurd hnone (hturns here List.mem_cons_self)
    next hdown =>
      rw [if_neg hdown]
      exact ih hturns (entry?_below ht hnone step)

/-- Steps that pass where nothing is, and do not step up from there, lead nowhere. -/
theorem entry?_walk_of_mem_trail {here : Place} {steps : List String}
    (hturns : ∀ p ∈ Place.turnsFrom here steps, t.entry? p ≠ none) {p : Place} (hp : p ∈ Place.trail here steps)
    (hnone : t.entry? p = none) : t.entry? (Place.walk here steps) = none := by
  induction steps generalizing here with
  | nil => exact absurd hp List.not_mem_nil
  | cons step rest ih =>
    simp only [Place.turnsFrom] at hturns
    simp only [Place.trail] at hp
    simp only [Place.walk]
    split at hturns
    next hup =>
      rw [if_pos hup] at hp ⊢
      exact ih (fun p hp => hturns p (List.mem_cons_of_mem _ hp)) hp
    next hdown =>
      rw [if_neg hdown] at hp ⊢
      rcases List.mem_cons.1 hp with rfl | hp
      · exact entry?_walk_of_none ht hturns hnone
      · exact ih hturns hp

/-- Of the missing places that steps turn back from, one is passed on the way down. -/
theorem exists_turn_mem_trail {here : Place} {steps : List String} {p : Place} (hp : p ∈ Place.turnsFrom here steps)
    (hnone : t.entry? p = none) :
    ∃ q ∈ Place.turnsFrom here steps, t.entry? q = none ∧ q ∈ here :: Place.trail here steps.dropLast := by
  induction steps generalizing here with
  | nil => exact absurd hp List.not_mem_nil
  | cons step rest ih =>
    have hrest : ∀ {here' : Place}, p ∈ Place.turnsFrom here' rest → (step :: rest).dropLast = step :: rest.dropLast := by
      intro here' hmem
      refine List.dropLast_cons_of_ne_nil ?_
      rintro rfl
      exact List.not_mem_nil hmem
    simp only [Place.turnsFrom] at hp ⊢
    split at hp
    next hup =>
      rw [if_pos hup]
      by_cases hhere : t.entry? here = none
      · exact ⟨here, List.mem_cons_self, hhere, List.mem_cons_self⟩
      · rcases List.mem_cons.1 hp with rfl | hp
        · exact absurd hnone hhere
        · obtain ⟨q, hq, hmissing, hmem⟩ := ih hp
          rcases List.mem_cons.1 hmem with rfl | hmem
          · rw [entry?_up ht hhere] at hmissing
            cases hmissing
          · refine ⟨q, List.mem_cons_of_mem _ hq, hmissing, List.mem_cons_of_mem _ ?_⟩
            rw [hrest hp, Place.trail, if_pos hup]
            exact hmem
    next hdown =>
      rw [if_neg hdown]
      obtain ⟨q, hq, hmissing, hmem⟩ := ih hp
      refine ⟨q, hq, hmissing, List.mem_cons_of_mem _ ?_⟩
      rw [hrest hp, Place.trail, if_neg hdown]
      exact hmem

end Rooted

theorem above_subset_trail (path : String) : Place.above path ⊆ Place.trail (.start path) (Path.steps path) := by
  intro p hp
  cases hlast : (Path.steps path).getLast? with
  | none =>
    rw [Place.above, List.getLast?_eq_none_iff.1 hlast] at hp
    exact absurd hp List.not_mem_nil
  | some last =>
    rw [← List.dropLast_append_getLast? last hlast, Place.trail_append]
    exact List.mem_append_left _ hp

/-- A path reads the same after a tree has grown elsewhere, unless it turns back from a directory that has been made. -/
theorem read_congr {written made : Place → Prop} {t t' : FileTree} (ht : t.Rooted) (h : t.Grows written made t')
    {path : String} (hwritten : ¬ written (Place.ofPath path)) (hturns : ∀ p ∈ Place.turns path, t.entry? p = none → ¬ made p) :
    (t'.read path).toOption = (t.read path).toOption := by
  have hok : ∀ {x : Except FileFault String} {s : String}, x.toOption = some s ↔ x = .ok s := by
    intro x s
    cases x <;> simp [Except.toOption]
  refine Option.ext fun s => ?_
  rw [hok, hok, read_eq_ok_iff, read_eq_ok_iff, h.others _ hwritten]
  refine and_congr_right fun _ => and_congr_right fun _ => ?_
  constructor
  · rintro ⟨habove, hcontent⟩
    -- what is passed is a directory now, so a missing place that the path turns back from would have been made
    have hthere : ∀ p ∈ Place.turns path, t.entry? p ≠ none := by
      intro p hp hnone
      obtain ⟨q, hq, hmissing, hmem⟩ := exists_turn_mem_trail ht hp hnone
      rcases List.mem_cons.1 hmem with rfl | hmem
      · rw [entry?_start] at hmissing
        cases hmissing
      · exact hturns q hq hmissing (h.fresh q hmissing (habove q hmem))
    refine ⟨fun p hp => ?_, hcontent⟩
    -- a directory on the way was one before, or nothing was there and so nothing at the end of the way
    have hfile : t.contentAt? p = none := by
      by_contra hne
      exact h.files p hne (contentAt?_of_directory (habove p hp))
    by_contra hne
    have hnone := entry?_walk_of_mem_trail ht hthere (above_subset_trail path hp) (entry?_eq_none_of hfile hne)
    rw [Place.ofPath, contentAt?_of_none hnone] at hcontent
    cases hcontent
  · rintro ⟨habove, hcontent⟩
    exact ⟨fun p hp => h.directories p (habove p hp), hcontent⟩

end FileTree

end SdkLoom
