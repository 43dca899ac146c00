import SdkLoom.Definition.Basic

/-!
# Emitted types

The types that a typed client has to declare: the required types, and all types that fields of such types refer to, over
any number of steps. Scalars are not declared.
-/

namespace SdkLoom

namespace Model

/-- The types that the fields of a type refer to, scalars apart. -/
def fieldTypes (d : Descriptor) : List String :=
  ((OrderedMap.values d.fieldList).filter fun f => !f.isPrimitive).map Descriptor.gqlType

/-- The number of types that are not in a set. -/
def unseen (m : Model) (seen : NameSet) : Nat := (m.types.keys.filter fun n => !seen.contains n).length

theorem length_filter_lt {α : Type} {p q : α → Bool} (hpq : ∀ x, p x = true → q x = true) {a : α} (hp : p a = false)
    (hq : q a = true) : ∀ {l : List α}, a ∈ l → (l.filter p).length < (l.filter q).length
  | x :: l, ha => by
    have hle : (l.filter p).length ≤ (l.filter q).length := by
      simpa only [List.countP_eq_length_filter] using List.countP_mono_left (fun x _ => hpq x)
    rcases List.mem_cons.1 ha with rfl | ha
    · simp only [List.filter_cons, hp, hq]
      simp
      omega
    · have ih := length_filter_lt hpq hp hq ha
      have := hpq x
      cases hx : p x <;> cases hy : q x
      · simpa [List.filter_cons, hx, hy] using ih
      · simpa [List.filter_cons, hx, hy] using Nat.lt_succ_of_lt ih
      · simp [hx, hy] at this
      · simpa [List.filter_cons, hx, hy] using ih

theorem unseen_insert_lt (m : Model) (seen : NameSet) (n : String) (hm : n ∈ m.types.keys)
    (hs : seen.contains n = false) : m.unseen (seen.insert n ()) < m.unseen seen := by
  refine length_filter_lt (fun k hk => ?_) (a := n) ?_ ?_ hm
  · simp [SortedMap.contains_insert] at hk
    simp [hk.2]
  · simp [SortedMap.contains_insert]
  · simp [hs]

/-- Adds the types of a list of pending names, and all that they refer to, to a set of types. -/
def closeFrom (m : Model) (seen : NameSet) : List String → NameSet
  | [] => seen
  | n :: pending =>
    match _h : m.types.get? n with
    | none => closeFrom m seen pending
    | some d =>
      if _hd : d.isPrimitive || seen.contains n then closeFrom m seen pending
      else closeFrom m (seen.insert n ()) (fieldTypes d ++ pending)
termination_by pending => (m.unseen seen, pending.length)
decreasing_by
  · exact Prod.Lex.right _ (by simp)
  · exact Prod.Lex.right _ (by simp)
  · exact Prod.Lex.left _ _ (m.unseen_insert_lt seen n (SortedMap.mem_keys_of_get? _ _h) (by simp at _hd; exact _hd.2))

end Model

/-- The types that a client of a definition declares. -/
def Definition.emitted (d : Definition) : NameSet := d.model.closeFrom ∅ d.required.keys

end SdkLoom
