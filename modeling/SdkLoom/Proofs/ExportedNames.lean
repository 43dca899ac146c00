import SdkLoom.Proofs.GoIdentifiers
import SdkLoom.Proofs.QueryText

/-!
# The identifiers of GraphQL names

A name of GraphQL starts with a letter or an underscore. A letter is made upper case and an underscore goes after an `X`, so
what is exported starts with an upper-case letter and has only letters, digits and underscores after it
(`isExportedIdent_exported`). No keyword of Go starts in that way. Which names become one identifier is told for all texts
(`exported_shared_exactly`).
-/

namespace SdkLoom.Go

/-- Whether a text is an upper-case letter and then letters, digits and underscores. -/
def isExportedIdent (s : String) : Bool :=
  match s.toList with
  | [] => false
  | c :: rest => c.isUpper && rest.all fun d => d.isAlphanum || d == '_'

theorem isExportedIdent_of_toList {s : String} {c : Char} {rest : List Char} (h : s.toList = c :: rest)
    (hc : c.isUpper = true) (hrest : ∀ d ∈ rest, Sdl.Token.isNameChar d = true) : isExportedIdent s = true := by
  rw [isExportedIdent, h]
  exact Bool.and_eq_true_iff.2 ⟨hc, List.all_eq_true.2 hrest⟩

/-- A name of GraphQL is exported as an identifier of Go that other packages see. -/
theorem isExportedIdent_exported {n : String} (h : Sdl.isName n = true) : isExportedIdent (exported n) = true := by
  have hchars := Sdl.isNameChar_of_isName h
  cases hn : n.toList with
  | nil =>
    rw [Sdl.isName, hn] at h
    cases h
  | cons c rest =>
    rw [hn] at hchars
    cases hc : c.isAlpha with
    | true =>
      have hupper : c.toUpper.isUpper = true := isUpper_toUpper_of_isAlpha hc
      exact isExportedIdent_of_toList (toList_exported_of_letter hn hc) hupper
        fun d hd => hchars d (List.mem_cons_of_mem _ hd)
    | false => exact isExportedIdent_of_toList (toList_exported_of_other hn hc) rfl hchars

/-- No keyword starts with an upper-case letter. -/
theorem notMem_keywords_of_isExportedIdent {s : String} (h : isExportedIdent s = true) : s ∉ keywords := by
  have hkeywords : keywords.all (fun w => !isExportedIdent w) = true := by decide
  intro hmem
  have hs := List.all_eq_true.1 hkeywords s hmem
  rw [h] at hs
  cases hs

/-- Two texts are exported as one identifier exactly if they are equal, or are equal up to the case of a letter at their
front, or one of them starts with no letter and the other is an `x` of either case before it. The identifier of a GraphQL
name is an upper-case letter and then letters, digits and underscores, and so it is never a keyword. -/
theorem exported_shared_exactly :
    (∀ a b : String, exported a = exported b ↔ a = b ∨ CaseVariants a b ∨ Escapes a b ∨ Escapes b a) ∧
    ∀ n : String, Sdl.isName n = true → isExportedIdent (exported n) = true ∧ exported n ∉ keywords := by
  refine ⟨exported_eq_iff, fun n hn => ?_⟩
  have hident := isExportedIdent_exported hn
  exact ⟨hident, notMem_keywords_of_isExportedIdent hident⟩

/-- The word `default` is exported as no keyword. A name with an underscore at its front shares its identifier with that
name after an `x`, but not with one that has another case behind the underscore. -/
theorem default_exported_shared_exactly :
    Sdl.isName "default" = true ∧ exported "default" = "Default" ∧ exported "default" ∉ keywords ∧
      isExportedIdent (exported "_id") = true ∧ exported "_id" = exported "x_id" ∧ exported "_id" ≠ exported "_Id" := by
  have hescapes : Escapes "_id" "x_id" := ⟨'_', "id".toList, rfl, rfl, .inr rfl⟩
  have hshared := (exported_shared_exactly.1 "_id" "x_id").2 (.inr (.inr (.inl hescapes)))
  have hname : Sdl.isName "default" = true := by decide
  exact ⟨hname, by decide, (exported_shared_exactly.2 "default" hname).2,
    (exported_shared_exactly.2 "_id" (by decide)).1, hshared, by decide⟩

end SdkLoom.Go
