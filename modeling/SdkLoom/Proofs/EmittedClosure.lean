import Mathlib.Order.Bounds.Defs
import SdkLoom.Proofs.ByteOrder
import SdkLoom.Proofs.GoDeclarations

/-!
# The emitted types are the least closure, and all that is declared

The emitted types of a definition, of whatever origin, are the least set that holds the required types and what the fields
of its members refer to (`Model.reached_isLeast`). The work list may take its pending names in any order: a round either
drops a name or visits a type that was not visited before, so each round uses up one unit of the work that is left
(`Model.Round.workLeft`), and all runs that end have seen the same types. The files of types then declare these and nothing
else, each once, in byte order (`emitted_least_closure`).
-/

namespace SdkLoom

namespace Model

/-! ## Closed sets of names -/

/-- A set of names is closed: it has the first names, and the names that fields of its types refer to, as far as the model
has a type of that name that is no scalar. -/
structure Closed (m : Model) (roots : List String) (names : Set String) : Prop where
  roots : ∀ n ∈ roots, m.Declarable n → n ∈ names
  fields : ∀ n ∈ names, ∀ ty, m.types.get? n = some ty → ∀ f ∈ ty.fieldList, f.2.isPrimitive = false →
    m.Declarable f.2.gqlType → f.2.gqlType ∈ names

theorem mem_fieldTypes_iff (d : Descriptor) (k : String) :
    k ∈ fieldTypes d ↔ ∃ f ∈ d.fieldList, f.2.isPrimitive = false ∧ f.2.gqlType = k := by
  simp only [fieldTypes, OrderedMap.values, List.mem_map, List.mem_filter, Bool.not_eq_true']
  constructor
  · rintro ⟨_, ⟨⟨f, hf, rfl⟩, hprim⟩, rfl⟩
    exact ⟨f, hf, hprim, rfl⟩
  · rintro ⟨f, hf, hprim, rfl⟩
    exact ⟨f.2, ⟨⟨f, hf, rfl⟩, hprim⟩, rfl⟩

/-- The reached types are the least closed set. -/
theorem reached_isLeast (m : Model) (roots : List String) :
    IsLeast {names : Set String | m.Closed roots names} {n | m.Reached roots n} := by
  constructor
  · refine { roots := fun n hn hd => .root hn hd, fields := ?_ }
    intro n hn ty hty f hf hprim hd
    exact Reached.step hn ⟨ty, hty, (mem_fieldTypes_iff ty _).2 ⟨f, hf, hprim, rfl⟩⟩ hd
  · intro names hclosed n hn
    induction hn with
    | root hn hd => exact hclosed.roots _ hn hd
    | step _ hrefers hd ih =>
      obtain ⟨ty, hty, hk⟩ := hrefers
      obtain ⟨f, hf, hprim, rfl⟩ := (mem_fieldTypes_iff ty _).1 hk
      exact hclosed.fields _ ih ty hty f hf hprim hd

/-! ## Rounds in any order -/

/-- The state of the search: the types that were visited, and the names that are still to be looked at. -/
structure WorkList where
  seen : NameSet
  pending : List String

/-- The search before its first round. -/
def WorkList.start (roots : List String) : WorkList := ⟨∅, roots⟩

/-- One round: some pending name is taken. It is dropped if it is no type that can be declared or if it was visited before;
else it is visited, and what its fields refer to becomes pending. -/
inductive Round (m : Model) : WorkList → WorkList → Prop where
  | drop {seen : NameSet} {n : String} {rest pending next : List String} : pending.Perm (n :: rest) → next.Perm rest →
      (m.Declarable n → seen.contains n = true) → Round m ⟨seen, pending⟩ ⟨seen, next⟩
  | visit {seen : NameSet} {n : String} {d : Descriptor} {rest pending next : List String} : pending.Perm (n :: rest) →
      next.Perm (fieldTypes d ++ rest) → m.types.get? n = some d → d.isPrimitive = false → seen.contains n = false →
      Round m ⟨seen, pending⟩ ⟨seen.insert n (), next⟩

/-- A number of rounds, one after the other. -/
inductive Rounds (m : Model) : Nat → WorkList → WorkList → Prop where
  | none (w : WorkList) : Rounds m 0 w w
  | next {k : Nat} {a b c : WorkList} : m.Round a b → Rounds m k b c → Rounds m (k + 1) a c

/-- As long as a name is pending there is a round. -/
theorem exists_round (m : Model) {w : WorkList} (h : w.pending ≠ []) : ∃ w', m.Round w w' := by
  obtain ⟨seen, pending⟩ := w
  obtain ⟨n, rest, rfl⟩ := List.exists_cons_of_ne_nil h
  by_cases hn : m.Declarable n → seen.contains n = true
  · exact ⟨_, .drop (.refl _) (.refl _) hn⟩
  · obtain ⟨⟨d, hd, hprim⟩, hseen⟩ := Classical.not_imp.1 hn
    exact ⟨_, .visit (.refl _) (.refl _) hd hprim (Bool.eq_false_iff.2 hseen)⟩

/-- The function takes rounds until nothing is pending. -/
theorem closeFrom_rounds (m : Model) (seen : NameSet) (pending : List String) :
    ∃ k, m.Rounds k ⟨seen, pending⟩ ⟨m.closeFrom seen pending, []⟩ := by
  fun_induction closeFrom m seen pending with
  | case1 seen => exact ⟨0, .none _⟩
  | case2 seen n pending hget ih =>
    obtain ⟨k, hk⟩ := ih
    refine ⟨k + 1, .next (.drop (.refl _) (.refl _) ?_) hk⟩
    rintro ⟨d, hd, -⟩
    rw [hget] at hd
    cases hd
  | case3 seen n pending d hget hskip ih =>
    obtain ⟨k, hk⟩ := ih
    refine ⟨k + 1, .next (.drop (.refl _) (.refl _) ?_) hk⟩
    rintro ⟨d', hd', hprim⟩
    rw [hget] at hd'
    cases hd'
    simpa [hprim] using hskip
  | case4 seen n pending d hget hvisit ih =>
    obtain ⟨k, hk⟩ := ih
    simp only [Bool.or_eq_true, not_or, Bool.not_eq_true] at hvisit
    exact ⟨k + 1, .next (.visit (.refl _) (.refl _) hget hvisit.1 hvisit.2) hk⟩

/-! ### The work that is left -/

/-- The number of references from the types of some entries that are not in a set. -/
def unseenRefs (seen : NameSet) (entries : List (String × Descriptor)) : Nat :=
  (entries.flatMap fun e => if seen.contains e.1 then [] else fieldTypes e.2).length

/-- The work that is left: the pending names, and all that can still become pending. -/
def workLeft (m : Model) (w : WorkList) : Nat := w.pending.length + unseenRefs w.seen m.types.toList

/-- A type that becomes seen takes its references with it. -/
theorem unseenRefs_insert {seen : NameSet} {n : String} {d : Descriptor} (hseen : seen.contains n = false) :
    ∀ {entries : List (String × Descriptor)}, (entries.map Prod.fst).Nodup → (n, d) ∈ entries →
      unseenRefs seen entries = (fieldTypes d).length + unseenRefs (seen.insert n ()) entries
  | e :: entries, hnodup, hmem => by
    obtain ⟨hfresh, hnodup⟩ := List.nodup_cons.1 hnodup
    simp only [unseenRefs, List.flatMap_cons, List.length_append, SortedMap.contains_insert]
    rcases List.mem_cons.1 hmem with rfl | hmem
    · -- no other entry has the name, so all others count as before
      have hothers : (entries.flatMap fun e => if seen.contains e.1 then [] else fieldTypes e.2) =
          entries.flatMap fun e => if (decide (e.1 = n) || seen.contains e.1) = true then [] else fieldTypes e.2 := by
        refine List.flatMap_congr fun e he => ?_
        have hne : e.1 ≠ n := fun heq => hfresh (List.mem_map.2 ⟨e, he, heq⟩)
        simp [hne]
      simp [hseen, hothers]
    · have hne : e.1 ≠ n := fun heq => hfresh (List.mem_map.2 ⟨(n, d), hmem, heq.symm⟩)
      have ih := unseenRefs_insert hseen hnodup hmem
      simp only [unseenRefs, SortedMap.contains_insert] at ih
      simp only [hne, decide_false, Bool.false_or]
      omega

/-- A round uses up one unit of the work that is left. -/
theorem Round.workLeft {m : Model} {a b : WorkList} (h : m.Round a b) : m.workLeft a = m.workLeft b + 1 := by
  cases h with
  | drop hpending hnext _ =>
    have hlength := hpending.length_eq
    have hlength' := hnext.length_eq
    simp only [Model.workLeft, List.length_cons] at *
    omega
  | visit hpending hnext hget _ hseen =>
    have hrefs := unseenRefs_insert hseen m.types.nodup_keys ((m.types.get?_eq_some_iff).1 hget)
    have hlength := hpending.length_eq
    have hlength' := hnext.length_eq
    simp only [Model.workLeft, List.length_cons, List.length_append, SortedMap.toList] at *
    omega

/-- The number of rounds is the work that they use up. -/
theorem Rounds.workLeft {m : Model} {k : Nat} {a b : WorkList} (h : m.Rounds k a b) :
    m.workLeft a = m.workLeft b + k := by
  induction h with
  | none w => rfl
  | next hround _ ih =>
    have hone := hround.workLeft
    omega

/-! ### What rounds keep -/

/-- What holds between rounds does not depend on the order of the pending names. -/
theorem Frontier.of_perm {m : Model} {roots : List String} {seen : NameSet} {pending pending' : List String}
    (h : m.Frontier roots seen pending) (hperm : pending.Perm pending') : m.Frontier roots seen pending' where
  roots_covered n hn hd := (h.roots_covered n hn hd).imp_right hperm.mem_iff.1
  refs_covered n hn k hk hd := (h.refs_covered n hn k hk hd).imp_right hperm.mem_iff.1
  seen_reached := h.seen_reached
  pending_reached n hn hd := h.pending_reached n (hperm.mem_iff.2 hn) hd

theorem Round.frontier {m : Model} {roots : List String} {a b : WorkList} (h : m.Round a b)
    (ha : m.Frontier roots a.seen a.pending) : m.Frontier roots b.seen b.pending := by
  cases h with
  | drop hpending hnext hn => exact ((ha.of_perm hpending).drop hn).of_perm hnext.symm
  | visit hpending hnext hget hprim _ => exact ((ha.of_perm hpending).visit hget hprim).of_perm hnext.symm

theorem Rounds.frontier {m : Model} {roots : List String} {k : Nat} {a b : WorkList} (h : m.Rounds k a b)
    (ha : m.Frontier roots a.seen a.pending) : m.Frontier roots b.seen b.pending := by
  induction h with
  | none w => exact ha
  | next hround _ ih => exact ih (hround.frontier ha)

/-- Rounds that end have seen exactly the reached types. -/
theorem Rounds.seen_eq {m : Model} {roots : List String} {k : Nat} {w : WorkList} (h : m.Rounds k (.start roots) w)
    (hdone : w.pending = []) : w.seen = m.closeFrom ∅ roots := by
  have hfrontier := h.frontier (m.frontier_start roots)
  rw [hdone] at hfrontier
  refine NameSet.ext_contains fun n => Bool.eq_iff_iff.2 ?_
  rw [hfrontier.finish n, closeFrom_iff (m.frontier_start roots)]

end Model

/-! ## Files of types -/

/-- The search for the types to emit ends, whatever order it takes the pending names in: every round uses up one unit of the
work that is left, and as long as a name is pending there is a next round. When none is pending any more the types that were
seen are the emitted ones, and these are the least closed set. The files of types declare each of them once under its exported
name, in byte order, and nothing else: the inputs in one file, all others in the other. -/
theorem emitted_least_closure (d : Definition) (ps : Primitives) (module : String) :
    (∀ k w, d.model.Rounds k (.start d.required.keys) w →
      k + d.model.workLeft w = d.model.workLeft (.start d.required.keys) ∧
        (w.pending ≠ [] → ∃ w', d.model.Round w w') ∧ (w.pending = [] → w.seen = d.emitted)) ∧
    (∃ k, d.model.Rounds k (.start d.required.keys) ⟨d.emitted, []⟩) ∧
    IsLeast {names : Set String | d.model.Closed d.required.keys names} {n | d.emitted.contains n = true} ∧
    ∃ inputs models : List String, (inputs ++ models).Perm d.emitted.keys ∧
      (inputs.Pairwise fun a b => Text.bytes a < Text.bytes b) ∧ (models.Pairwise fun a b => Text.bytes a < Text.bytes b) ∧
      (∀ n ∈ inputs, d.model.inputs.contains n = true) ∧ (∀ n ∈ models, d.model.inputs.contains n = false) ∧
      Go.DeclaresExactly d ps ((Go.Package.ofDefinition d ps).files module) "cmd/main/types/inputs.go" inputs ∧
      Go.DeclaresExactly d ps ((Go.Package.ofDefinition d ps).files module) "cmd/main/types/models.go" models := by
  refine ⟨fun k w h => ⟨?_, d.model.exists_round, h.seen_eq⟩, d.model.closeFrom_rounds ∅ d.required.keys, ?_, ?_⟩
  · rw [h.workLeft, Nat.add_comm]
  · simp only [d.emitted_iff]
    exact d.model.reached_isLeast d.required.keys
  · have hbytes : ∀ p, (d.emitted.keys.filter p).Pairwise fun a b => Text.bytes a < Text.bytes b := fun p =>
      d.emitted.keys_in_byte_order.filter p
    refine ⟨d.emitted.keys.filter d.model.inputs.contains, d.emitted.keys.filter fun n => !d.model.inputs.contains n,
      List.filter_append_perm _ _, hbytes _, hbytes _, ?_, ?_, ?_, ?_⟩
    · exact fun n hn => (List.mem_filter.1 hn).2
    · intro n hn
      simpa using (List.mem_filter.1 hn).2
    · exact Go.declaresExactly_typesFile rfl
    · exact Go.declaresExactly_typesFile rfl

end SdkLoom
