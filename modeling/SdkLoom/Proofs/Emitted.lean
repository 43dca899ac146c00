import SdkLoom.Definition.Emitted
import SdkLoom.Proofs.Maps

/-!
# The emitted types are the reachable ones

The work list of `Model.closeFrom` ends with exactly the types that are reached from the first names over the fields of
types (`Definition.emitted_iff`). What holds between two rounds is `Model.Frontier`: a type that is left out so far is
pending, and nothing but reached types is listed.
-/

namespace SdkLoom

namespace Model

/-- The model has a type of the name, and it is no scalar. -/
def Declarable (m : Model) (n : String) : Prop := ∃ d, m.types.get? n = some d ∧ d.isPrimitive = false

/-- A field of one type refers to another type. -/
def Refers (m : Model) (n k : String) : Prop := ∃ d, m.types.get? n = some d ∧ k ∈ fieldTypes d

/-- The types that are reached from some names over any number of fields, as far as they can be declared. -/
inductive Reached (m : Model) (roots : List String) : String → Prop where
  | root {n : String} : n ∈ roots → m.Declarable n → Reached m roots n
  | step {n k : String} : Reached m roots n → m.Refers n k → m.Declarable k → Reached m roots k

/-- Every reached type can be declared. -/
theorem Reached.declarable {m : Model} {roots : List String} {n : String} (h : m.Reached roots n) : m.Declarable n := by
  cases h with
  | root _ hd => exact hd
  | step _ _ hd => exact hd

section Agreement

variable {m m' : Model} {roots : List String} (hroots : ∀ n ∈ roots, m'.types.get? n = m.types.get? n)
  (hrefs : ∀ a b, m.Reached roots a → m.Refers a b → m'.types.get? b = m.types.get? b)

include hroots hrefs

/-- Two models that agree on the first names and on what reached types refer to agree on all that is reached. -/
theorem Reached.types_get? {n : String} (h : m.Reached roots n) : m'.types.get? n = m.types.get? n := by
  cases h with
  | root hn _ => exact hroots n hn
  | step ha hab _ => exact hrefs _ _ ha hab

/-- Such models reach the same types. -/
theorem reached_congr (n : String) : m'.Reached roots n ↔ m.Reached roots n := by
  have hdeclarable : ∀ k, m'.types.get? k = m.types.get? k → (m'.Declarable k ↔ m.Declarable k) := by
    intro k hk
    rw [Declarable, Declarable, hk]
  have hrefers : ∀ a b, m.Reached roots a → (m'.Refers a b ↔ m.Refers a b) := by
    intro a b ha
    rw [Refers, Refers, ha.types_get? hroots hrefs]
  constructor
  · intro h
    induction h with
    | root hn hd => exact .root hn ((hdeclarable _ (hroots _ hn)).1 hd)
    | @step a b _ hab hd ih =>
      have hab' := (hrefers a b ih).1 hab
      exact .step ih hab' ((hdeclarable b (hrefs a b ih hab')).1 hd)
  · intro h
    induction h with
    | root hn hd => exact .root hn ((hdeclarable _ (hroots _ hn)).2 hd)
    | @step a b ha hab hd ih =>
      exact .step ih ((hrefers a b ha).2 hab) ((hdeclarable b (hrefs a b ha hab)).2 hd)

end Agreement

/-! ## Rounds of the work list -/

/-- What holds between two rounds: the first names and the references of what is seen are seen or pending, and all that
is seen or pending is reached, unless it cannot be declared. -/
structure Frontier (m : Model) (roots : List String) (seen : NameSet) (pending : List String) : Prop where
  roots_covered : ∀ n ∈ roots, m.Declarable n → seen.contains n = true ∨ n ∈ pending
  refs_covered : ∀ n, seen.contains n = true → ∀ k, m.Refers n k → m.Declarable k → seen.contains k = true ∨ k ∈ pending
  seen_reached : ∀ n, seen.contains n = true → m.Reached roots n
  pending_reached : ∀ n ∈ pending, m.Declarable n → m.Reached roots n

theorem frontier_start (m : Model) (roots : List String) : m.Frontier roots ∅ roots where
  roots_covered _ hn _ := .inr hn
  refs_covered _ hn := by simp at hn
  seen_reached _ hn := by simp at hn
  pending_reached _ hn hd := .root hn hd

/-- A pending name that cannot be declared or is seen already may be dropped. -/
theorem Frontier.drop {m : Model} {roots : List String} {seen : NameSet} {n : String} {pending : List String}
    (h : m.Frontier roots seen (n :: pending)) (hn : m.Declarable n → seen.contains n = true) :
    m.Frontier roots seen pending := by
  have hmove : ∀ k, m.Declarable k → seen.contains k = true ∨ k ∈ n :: pending →
      seen.contains k = true ∨ k ∈ pending := by
    rintro k hk (hseen | hmem)
    · exact .inl hseen
    · rcases List.mem_cons.1 hmem with rfl | hmem
      · exact .inl (hn hk)
      · exact .inr hmem
  exact {
    roots_covered := fun k hk hd => hmove k hd (h.roots_covered k hk hd)
    refs_covered := fun a ha k hak hd => hmove k hd (h.refs_covered a ha k hak hd)
    seen_reached := h.seen_reached
    pending_reached := fun k hk hd => h.pending_reached k (List.mem_cons_of_mem _ hk) hd }

/-- A pending type that can be declared becomes seen when all that it refers to becomes pending. -/
theorem Frontier.visit {m : Model} {roots : List String} {seen : NameSet} {n : String} {pending : List String}
    {d : Descriptor} (h : m.Frontier roots seen (n :: pending)) (hget : m.types.get? n = some d)
    (hprim : d.isPrimitive = false) : m.Frontier roots (seen.insert n ()) (fieldTypes d ++ pending) := by
  have hseen : ∀ k, (seen.insert n ()).contains k = true ↔ k = n ∨ seen.contains k = true := by
    intro k
    rw [SortedMap.contains_insert, Bool.or_eq_true, decide_eq_true_iff]
  have hmove : ∀ k, seen.contains k = true ∨ k ∈ n :: pending →
      (seen.insert n ()).contains k = true ∨ k ∈ fieldTypes d ++ pending := by
    rintro k (hk | hk)
    · exact .inl ((hseen k).2 (.inr hk))
    · rcases List.mem_cons.1 hk with rfl | hk
      · exact .inl ((hseen k).2 (.inl rfl))
      · exact .inr (List.mem_append_right _ hk)
  have hreached : m.Reached roots n := h.pending_reached n List.mem_cons_self ⟨d, hget, hprim⟩
  refine { roots_covered := ?_, refs_covered := ?_, seen_reached := ?_, pending_reached := ?_ }
  · intro k hk hd
    exact hmove k (h.roots_covered k hk hd)
  · intro a ha k hak hd
    rcases (hseen a).1 ha with rfl | ha
    · obtain ⟨d', hget', hk⟩ := hak
      rw [hget] at hget'
      cases hget'
      exact .inr (List.mem_append_left _ hk)
    · exact hmove k (h.refs_covered a ha k hak hd)
  · intro k hk
    rcases (hseen k).1 hk with rfl | hk
    · exact hreached
    · exact h.seen_reached k hk
  · intro k hk hd
    rcases List.mem_append.1 hk with hk | hk
    · exact .step hreached ⟨d, hget, hk⟩ hd
    · exact h.pending_reached k (List.mem_cons_of_mem _ hk) hd

/-- When nothing is pending, exactly the reached types are seen. -/
theorem Frontier.finish {m : Model} {roots : List String} {seen : NameSet} (h : m.Frontier roots seen []) (n : String) :
    seen.contains n = true ↔ m.Reached roots n := by
  refine ⟨h.seen_reached n, fun hn => ?_⟩
  induction hn with
  | root hk hd => simpa using h.roots_covered _ hk hd
  | step _ hak hd ih => simpa using h.refs_covered _ ih _ hak hd

/-- The work list ends with exactly the reached types. -/
theorem closeFrom_iff {m : Model} {roots : List String} {seen : NameSet} {pending : List String}
    (h : m.Frontier roots seen pending) (n : String) :
    (m.closeFrom seen pending).contains n = true ↔ m.Reached roots n := by
  fun_induction closeFrom m seen pending with
  | case1 seen => exact h.finish n
  | case2 seen k pending hget ih =>
    refine ih (h.drop ?_)
    rintro ⟨d, hd, -⟩
    rw [hget] at hd
    cases hd
  | case3 seen k pending d hget hskip ih =>
    refine ih (h.drop ?_)
    rintro ⟨d', hd', hprim⟩
    rw [hget] at hd'
    cases hd'
    simpa [hprim] using hskip
  | case4 seen k pending d hget hvisit ih =>
    refine ih (h.visit hget ?_)
    simp only [Bool.or_eq_true, not_or, Bool.not_eq_true] at hvisit
    exact hvisit.1

end Model

/-! ## Emitted types -/

/-- The emitted types are those that are reached from the required ones. -/
theorem Definition.emitted_iff (d : Definition) (n : String) :
    d.emitted.contains n = true ↔ d.model.Reached d.required.keys n :=
  Model.closeFrom_iff (d.model.frontier_start d.required.keys) n

/-- The model has all emitted types. -/
theorem Definition.type_of_mem_emitted (d : Definition) {n : String} (h : n ∈ d.emitted.keys) :
    ∃ ty, d.model.types.get? n = some ty := by
  obtain ⟨ty, hty, -⟩ := ((d.emitted_iff n).1 ((d.emitted.mem_keys_iff n).1 h)).declarable
  exact ⟨ty, hty⟩

end SdkLoom
