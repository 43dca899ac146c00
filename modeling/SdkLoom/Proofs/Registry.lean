import Mathlib.Data.List.Nodup
import SdkLoom.Proofs.Maps
import SdkLoom.Target.Registry

/-!
# Finding a generator

The key of a template and a language joins the two by underscores, and a dash counts as an underscore, so a key alone does
not tell where the template ends. The registered keys are those of templates and languages that have neither character in
them. For these the language can be told from the key (`Registry.language_of_key_eq`), whatever the template and the
language were that gave it. So what is found depends on the language alone (`Registry.resolve_of_known`,
`Registry.resolve_of_unknown`).
-/

namespace SdkLoom

/-- Replacing one character by another changes every character by itself. -/
theorem Text.replaceFrom_singleton (a b : Char) (cs : List Char) :
    Text.replaceFrom [a] [b] 0 cs = cs.map fun c => if c = a then b else c := by
  induction cs with
  | nil => rfl
  | cons c cs ih =>
    rw [Text.replaceFrom, List.map_cons]
    by_cases hc : c = a
    · subst hc
      simpa using ih
    · have hpart : [a].isPrefixOf (c :: cs) = false := by
        rw [List.isPrefixOf_cons_cons, beq_false_of_ne (Ne.symm hc), Bool.false_and]
      rw [hpart, if_neg Bool.false_ne_true, if_neg hc, ih]

/-- The target of a language. -/
def Target.ofLanguage? (language : String) : Option Target := Target.all.find? fun t => t.language == language

theorem Target.of_ofLanguage?_some {language : String} {t : Target} (h : ofLanguage? language = some t) :
    t ∈ Target.all ∧ t.language = language :=
  ⟨List.mem_of_find?_eq_some h, by simpa using List.find?_some h⟩

theorem Target.language_ne_of_ofLanguage?_none {language : String} (h : ofLanguage? language = none) :
    ∀ t ∈ Target.all, t.language ≠ language := by
  simpa [ofLanguage?] using h

namespace Registry

/-- A character of a key: a dash is written as an underscore. -/
def keyChar (c : Char) : Char := if c = '-' then '_' else c

/-- Whether a text has no dash and no underscore. -/
def isSolid (s : String) : Bool := s.toList.all fun c => c != '-' && c != '_'

theorem ne_of_isSolid {s : String} (h : isSolid s = true) : ∀ c ∈ s.toList, c ≠ '-' ∧ c ≠ '_' := by
  simpa [isSolid] using h

theorem toList_key (template language : String) :
    (key template language).toList = template.toList.map keyChar ++ '_' :: '_' :: language.toList.map keyChar := by
  have hparts : (template ++ "__" ++ language).toList = template.toList ++ ['_', '_'] ++ language.toList := by simp
  have hdash : "-".toList = ['-'] := rfl
  have hunderscore : "_".toList = ['_'] := rfl
  rw [key, Text.replaceAll, String.toList_ofList, hdash, hunderscore, Text.replaceFrom_singleton, hparts, List.map_append,
    List.map_append, List.append_assoc]
  rfl

theorem map_keyChar_of_isSolid {s : String} (h : isSolid s = true) : s.toList.map keyChar = s.toList := by
  refine (List.map_congr_left fun c hc => ?_).trans (List.map_id _)
  rw [keyChar, if_neg (ne_of_isSolid h c hc).1, id]

theorem notMem_of_isSolid {s : String} (h : isSolid s = true) : '_' ∉ s.toList :=
  fun hmem => (ne_of_isSolid h _ hmem).2 rfl

/-- What is written without underscores has no dash. -/
theorem map_keyChar_of_notMem {cs : List Char} (h : '_' ∉ cs.map keyChar) : cs.map keyChar = cs := by
  refine (List.map_congr_left fun c hc => ?_).trans (List.map_id _)
  rw [keyChar, id]
  split
  next hdash =>
    have hmem : keyChar c ∈ cs.map keyChar := List.mem_map_of_mem hc
    rw [keyChar, if_pos hdash] at hmem
    exact absurd hmem h
  next => rfl

/-- A key of a solid template and a solid language is the key of no other language. -/
theorem language_of_key_eq {template language template' language' : String} (htemplate : isSolid template' = true)
    (hlanguage : isSolid language' = true) (h : key template language = key template' language') :
    language = language' := by
  have hmem := notMem_of_isSolid htemplate
  have hmem' := notMem_of_isSolid hlanguage
  have hkeys := congrArg String.toList h
  rw [toList_key, toList_key, map_keyChar_of_isSolid htemplate, map_keyChar_of_isSolid hlanguage] at hkeys
  -- the two underscores that join the parts are the only ones of the key
  have hcount := congrArg (List.count '_') hkeys
  simp only [List.count_append, List.count_cons_self, List.count_eq_zero.2 hmem, List.count_eq_zero.2 hmem'] at hcount
  have hfront : '_' ∉ template.toList.map keyChar := List.count_eq_zero.1 (by omega)
  have hback : '_' ∉ language.toList.map keyChar := List.count_eq_zero.1 (by omega)
  -- so both keys have the first of them at the end of the template
  have hlength := congrArg (List.idxOf '_') hkeys
  rw [List.idxOf_append_of_notMem hfront, List.idxOf_append_of_notMem hmem, List.idxOf_cons_self,
    List.idxOf_cons_self] at hlength
  have htail := (List.append_inj hkeys (by omega)).2
  rw [map_keyChar_of_notMem hback] at htail
  exact String.toList_inj.1 (List.cons.inj (List.cons.inj htail).2).2

/-- Both templates of a target are solid, and so are all languages. -/
theorem isSolid_table : isSolid templateFamily = true ∧ isSolid defaultTemplate = true ∧
    (Target.all.all fun t => isSolid t.language) = true := by
  decide

/-- No two targets have one language. -/
theorem nodup_languages : (Target.all.map Target.language).Nodup := by
  decide

/-- What stands under the key of a language is a target of that language. -/
theorem language_of_get? {template language : String} {t : Target}
    (h : builtin.get? (key template language) = some t) : t ∈ Target.all ∧ t.language = language := by
  obtain ⟨hfamily, hdefault, hlanguages⟩ := isSolid_table
  rw [List.all_eq_true] at hlanguages
  rw [builtin, SortedMap.get?_ofList] at h
  obtain ⟨e, he, rfl⟩ := Option.map_eq_some_iff.1 h
  have hkey : e.1 = key template language := by simpa using List.find?_some he
  have hmem := List.mem_reverse.1 (List.mem_of_find?_eq_some he)
  simp only [List.mem_flatMap, List.mem_cons, List.not_mem_nil, or_false] at hmem
  obtain ⟨t, ht, rfl | rfl⟩ := hmem
  · exact ⟨ht, (language_of_key_eq hfamily (hlanguages t ht) hkey.symm).symm⟩
  · exact ⟨ht, (language_of_key_eq hdefault (hlanguages t ht) hkey.symm).symm⟩

theorem eq_of_language_eq {t t' : Target} (ht : t ∈ Target.all) (ht' : t' ∈ Target.all)
    (h : t.language = t'.language) : t = t' :=
  List.inj_on_of_nodup_map nodup_languages ht ht' h

/-- Every target stands under the default template. -/
theorem get?_default {t : Target} (ht : t ∈ Target.all) : builtin.get? (key defaultTemplate t.language) = some t := by
  cases hget : builtin.get? (key defaultTemplate t.language) with
  | none =>
    rw [builtin, SortedMap.get?_ofList, Option.map_eq_none_iff, List.find?_eq_none] at hget
    have hentry : (key defaultTemplate t.language, t) ∈ (Target.all.flatMap fun t =>
        [(key templateFamily t.language, t), (key defaultTemplate t.language, t)]).reverse :=
      List.mem_reverse.2 (List.mem_flatMap.2 ⟨t, ht, List.mem_cons_of_mem _ List.mem_cons_self⟩)
    have hother := hget _ hentry
    rw [decide_eq_true_eq] at hother
    exact absurd rfl hother
  | some t' =>
    obtain ⟨ht', hlanguage⟩ := language_of_get? hget
    rw [eq_of_language_eq ht' ht hlanguage]

/-- The target of a language is found, whatever the template is. -/
theorem resolve_of_known {language : String} {t : Target} (h : Target.ofLanguage? language = some t) (template : String) :
    builtin.resolve template language = .ok t := by
  obtain ⟨ht, rfl⟩ := Target.of_ofLanguage?_some h
  rw [resolve, get?_default ht]
  cases hget : builtin.get? (key template t.language) with
  | none => rfl
  | some t' =>
    obtain ⟨ht', hlanguage⟩ := language_of_get? hget
    rw [eq_of_language_eq ht' ht hlanguage]
    rfl

/-- Where there is no target of a language, none is found for any template. -/
theorem resolve_of_unknown {language : String} (h : Target.ofLanguage? language = none) (template : String) :
    builtin.resolve template language = .error (.unknownGenerator template language) := by
  have hnone : ∀ template, builtin.get? (key template language) = none := by
    intro template
    cases hget : builtin.get? (key template language) with
    | none => rfl
    | some t =>
      obtain ⟨ht, hlanguage⟩ := language_of_get? hget
      exact absurd hlanguage (Target.language_ne_of_ofLanguage?_none h t ht)
  rw [resolve, hnone, hnone]
  rfl

/-- A template and a language are resolved to a target exactly if it is the one of that very language in the table, and fail
exactly if the table has none; the error then names the two as they were given. -/
theorem resolve_by_language (template language : String) :
    (∀ t, builtin.resolve template language = .ok t ↔ t ∈ Target.all ∧ t.language = language) ∧
    (∀ e, builtin.resolve template language = .error e ↔
      (∀ t ∈ Target.all, t.language ≠ language) ∧ e = .unknownGenerator template language) ∧
    (Error.unknownGenerator template language).message =
      "unknown code generator '" ++ template ++ "' for language '" ++ language ++ "'" := by
  refine ⟨fun t => ?_, fun e => ?_, rfl⟩
  · cases hfound : Target.ofLanguage? language with
    | some t' =>
      obtain ⟨ht', hlanguage⟩ := Target.of_ofLanguage?_some hfound
      rw [resolve_of_known hfound, Except.ok.injEq]
      constructor
      · rintro rfl
        exact ⟨ht', hlanguage⟩
      · rintro ⟨ht, rfl⟩
        exact eq_of_language_eq ht' ht hlanguage
    | none =>
      rw [resolve_of_unknown hfound]
      refine iff_of_false (fun h => by cases h) fun ⟨ht, hlanguage⟩ => ?_
      exact Target.language_ne_of_ofLanguage?_none hfound t ht hlanguage
  · cases hfound : Target.ofLanguage? language with
    | some t' =>
      obtain ⟨ht', hlanguage⟩ := Target.of_ofLanguage?_some hfound
      rw [resolve_of_known hfound]
      exact iff_of_false (fun h => by cases h) fun ⟨hnone, _⟩ => hnone t' ht' hlanguage
    | none =>
      rw [resolve_of_unknown hfound, Except.error.injEq, eq_comm]
      exact (and_iff_right (Target.language_ne_of_ofLanguage?_none hfound)).symm

end Registry

end SdkLoom
