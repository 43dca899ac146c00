import Mathlib.Data.List.Forall2
import Mathlib.Data.List.Induction
import SdkLoom.Map.Ordered
import SdkLoom.Map.Sorted

/-!
# Laws of the two kinds of maps

What a look-up finds after each operation on a sorted map, and which entries a map in insertion order has. The laws that
later modules use are stated on look-ups: two sorted maps with the same look-ups are equal (`SortedMap.ext_get?`).
-/

namespace SdkLoom

/-- In two lists that are related one by one, properties that agree on related items hold of some item alike. -/
theorem exists_mem_iff_of_forall₂ {α β : Type} {R : α → β → Prop} {P : α → Prop} {Q : β → Prop}
    (hPQ : ∀ a b, R a b → (P a ↔ Q b)) {l : List α} {l' : List β} (h : List.Forall₂ R l l') :
    (∃ a ∈ l, P a) ↔ ∃ b ∈ l', Q b := by
  induction h with
  | nil => simp
  | @cons a b rest rest' hab _ ih =>
    simp only [List.mem_cons, exists_eq_or_imp]
    exact or_congr (hPQ a b hab) ih

/-- In two lists that are related one by one, every item of the second is related to one of the first. -/
theorem exists_rel_of_mem_right {α β : Type} {R : α → β → Prop} {l : List α} {l' : List β} (h : List.Forall₂ R l l')
    {b : β} (hb : b ∈ l') : ∃ a ∈ l, R a b := by
  induction h with
  | nil => exact absurd hb List.not_mem_nil
  | @cons a b' rest rest' hab _ ih =>
    rcases List.mem_cons.1 hb with rfl | hb
    · exact ⟨a, List.mem_cons_self, hab⟩
    · obtain ⟨x, hx, hxb⟩ := ih hb
      exact ⟨x, List.mem_cons_of_mem _ hx, hxb⟩

namespace SortedMap

variable {κ α β : Type} [Ord κ]

/-! ## Look-ups in entry lists -/

/-- In an increasing entry list, what is found under a key is exactly what is listed under it. -/
theorem findEntry_eq_some_iff [Std.LawfulEqOrd κ] {k : κ} {v : α} {l : List (κ × α)}
    (h : l.Pairwise Entry.Before) : findEntry k l = some v ↔ (k, v) ∈ l := by
  induction l with
  | nil => simp [findEntry]
  | cons e rest ih =>
    obtain ⟨hlt, hrest⟩ := List.pairwise_cons.1 h
    rw [findEntry, List.mem_cons]
    by_cases hk : compare k e.1 = .eq
    · have hke : k = e.1 := Std.LawfulEqCmp.eq_of_compare hk
      subst hke
      have hnot : (e.1, v) ∉ rest := fun hmem => by simpa [Entry.Before] using hlt _ hmem
      rw [if_pos hk, or_iff_left hnot, Option.some.injEq]
      constructor
      · intro hv
        rw [← hv]
      · intro hv
        rw [← hv]
    · have hne : (k, v) ≠ e := by
        rintro rfl
        exact hk Std.ReflCmp.compare_self
      rw [if_neg hk, or_iff_right hne]
      exact ih hrest

theorem findEntry_eq_none_iff [Std.LawfulEqOrd κ] {k : κ} {l : List (κ × α)} :
    findEntry k l = none ↔ k ∉ l.map Prod.fst := by
  induction l with
  | nil => simp [findEntry]
  | cons e rest ih =>
    rw [findEntry, List.map_cons, List.mem_cons]
    by_cases hk : k = e.1
    · simp [hk]
    · simp [hk, ih]

/-- Changing every value of an entry list changes what is found. -/
theorem findEntry_map [Std.LawfulEqOrd κ] (f : κ → α → β) (k : κ) (l : List (κ × α)) :
    findEntry k (l.map fun e => (e.1, f e.1 e.2)) = (findEntry k l).map (f k) := by
  induction l with
  | nil => rfl
  | cons e rest ih =>
    rw [List.map_cons, findEntry, findEntry]
    by_cases hk : compare k e.1 = .eq
    · rw [if_pos hk, if_pos hk, ← Std.LawfulEqCmp.eq_of_compare hk]
      rfl
    · rw [if_neg hk, if_neg hk]
      exact ih

/-- Two increasing entry lists with the same entries are equal. -/
theorem entries_ext [Std.TransOrd κ] {l l' : List (κ × α)} (h : l.Pairwise Entry.Before)
    (h' : l'.Pairwise Entry.Before) (hmem : ∀ e, e ∈ l ↔ e ∈ l') : l = l' := by
  induction l generalizing l' with
  | nil =>
    cases l' with
    | nil => rfl
    | cons e _ => exact absurd ((hmem e).2 List.mem_cons_self) List.not_mem_nil
  | cons a rest ih =>
    cases l' with
    | nil => exact absurd ((hmem a).1 List.mem_cons_self) List.not_mem_nil
    | cons b rest' =>
      obtain ⟨ha, hrest⟩ := List.pairwise_cons.1 h
      obtain ⟨hb, hrest'⟩ := List.pairwise_cons.1 h'
      have irrefl : ∀ x : κ × α, ¬ Entry.Before x x := fun x hx => by simp [Entry.Before] at hx
      -- each list starts with the least entry, so the two first entries agree
      have hab : a = b := by
        rcases List.mem_cons.1 ((hmem a).1 List.mem_cons_self) with hab | hab
        · exact hab
        · rcases List.mem_cons.1 ((hmem b).2 List.mem_cons_self) with hba | hba
          · exact hba.symm
          · exact absurd (Std.TransCmp.lt_trans (ha b hba) (hb a hab)) (irrefl a)
      subst hab
      congr 1
      refine ih hrest hrest' fun e => ?_
      constructor
      · intro he
        rcases List.mem_cons.1 ((hmem e).1 (List.mem_cons_of_mem _ he)) with rfl | h1
        · exact absurd (ha e he) (irrefl e)
        · exact h1
      · intro he
        rcases List.mem_cons.1 ((hmem e).2 (List.mem_cons_of_mem _ he)) with rfl | h1
        · exact absurd (hb e he) (irrefl e)
        · exact h1

/-! ## Look-ups in maps -/

/-- What a map gives for a key is exactly what it lists under it. -/
theorem get?_eq_some_iff [Std.LawfulEqOrd κ] (m : SortedMap κ α) {k : κ} {v : α} :
    m.get? k = some v ↔ (k, v) ∈ m.entries :=
  findEntry_eq_some_iff m.sorted

/-- Two maps with the same look-ups are equal. -/
theorem ext_get? [Std.TransOrd κ] [Std.LawfulEqOrd κ] {m n : SortedMap κ α} (h : ∀ k, m.get? k = n.get? k) : m = n := by
  have hentries : m.entries = n.entries := by
    refine entries_ext m.sorted n.sorted fun e => ?_
    rw [← m.get?_eq_some_iff (k := e.1) (v := e.2), ← n.get?_eq_some_iff (k := e.1) (v := e.2), h]
  cases m
  cases n
  simp only at hentries
  subst hentries
  rfl

@[simp] theorem contains_empty (k : κ) : (∅ : SortedMap κ α).contains k = false := rfl

theorem contains_eq_true_iff (m : SortedMap κ α) (k : κ) : m.contains k = true ↔ ∃ v, m.get? k = some v :=
  Option.isSome_iff_exists

/-- The keys of a map are those that it contains. -/
theorem mem_keys_iff [Std.LawfulEqOrd κ] (m : SortedMap κ α) (k : κ) : k ∈ m.keys ↔ m.contains k = true := by
  rw [contains_eq_true_iff]
  constructor
  · intro h
    obtain ⟨e, he, rfl⟩ := List.mem_map.1 h
    exact ⟨e.2, m.get?_eq_some_iff.2 he⟩
  · rintro ⟨v, hv⟩
    exact m.mem_keys_of_get? hv

/-- A map lists a key once. -/
theorem nodup_keys [Std.TransOrd κ] (m : SortedMap κ α) : m.keys.Nodup := by
  refine List.pairwise_map.2 (m.sorted.imp fun {a b} h heq => ?_)
  have hself : compare b.1 b.1 = .eq := Std.ReflCmp.compare_self
  rw [Entry.Before, heq, hself] at h
  cases h

/-- The values of a map are those that it has under some key. -/
theorem mem_values_iff [Std.LawfulEqOrd κ] (m : SortedMap κ α) (v : α) : v ∈ m.values ↔ ∃ k, m.get? k = some v := by
  simp only [values, List.mem_map, get?_eq_some_iff]
  constructor
  · rintro ⟨e, he, rfl⟩
    exact ⟨e.1, he⟩
  · rintro ⟨k, hk⟩
    exact ⟨(k, v), hk, rfl⟩

@[simp] theorem keys_mapWithKey (f : κ → α → β) (m : SortedMap κ α) : (m.mapWithKey f).keys = m.keys := by
  simp [keys, mapWithKey]

@[simp] theorem get?_mapWithKey [Std.LawfulEqOrd κ] (f : κ → α → β) (m : SortedMap κ α) (k : κ) :
    (m.mapWithKey f).get? k = (m.get? k).map (f k) :=
  findEntry_map f k m.entries

@[simp] theorem get?_modify [Std.LawfulEqOrd κ] [DecidableEq κ] (m : SortedMap κ α) (k j : κ) (f : α → α) :
    (m.modify k f).get? j = if j = k then (m.get? j).map f else m.get? j := by
  rw [modify, get?_mapWithKey]
  by_cases hj : j = k <;> simp [hj]

@[simp] theorem keys_modify [DecidableEq κ] (m : SortedMap κ α) (k : κ) (f : α → α) : (m.modify k f).keys = m.keys :=
  keys_mapWithKey _ m

/-- Entries that are kept by their keys have the keys that are kept. -/
theorem keys_filter (p : κ → Bool) (m : SortedMap κ α) : (m.filter fun k _ => p k).keys = m.keys.filter p :=
  List.filter_map.symm

/-- Of the entries that are kept by their keys, those of the keys that are kept are found. -/
theorem get?_filter [Std.LawfulEqOrd κ] (p : κ → Bool) (m : SortedMap κ α) (k : κ) :
    (m.filter fun k _ => p k).get? k = if p k then m.get? k else none := by
  apply Option.ext
  intro v
  rw [get?_eq_some_iff, filter, List.mem_filter]
  cases hp : p k
  · simp
  · simp [get?_eq_some_iff]

/-- A test that all keys pass keeps the map. -/
theorem filter_eq_self {p : κ → Bool} {m : SortedMap κ α} (h : ∀ k ∈ m.keys, p k = true) :
    (m.filter fun k _ => p k) = m := by
  have hentries : m.entries.filter (fun e => p e.1) = m.entries :=
    List.filter_eq_self.2 fun e he => h e.1 (List.mem_map_of_mem he)
  obtain ⟨entries, sorted⟩ := m
  simp only [filter]
  congr

/-- Of a list of entries written over a map, the last one of a key is found; without one, what the map has. -/
theorem get?_foldl_insert [Std.TransOrd κ] [Std.LawfulEqOrd κ] [DecidableEq κ] (es : List (κ × α)) (m : SortedMap κ α)
    (k : κ) : (es.foldl (fun m e => m.insert e.1 e.2) m).get? k =
      ((es.reverse.find? fun e => decide (e.1 = k)).map Prod.snd).or (m.get? k) := by
  induction es generalizing m with
  | nil => rfl
  | cons e rest ih =>
    rw [List.foldl_cons, ih, get?_insert, List.reverse_cons, List.find?_append]
    cases hfind : rest.reverse.find? fun e => decide (e.1 = k) with
    | some x => simp
    | none =>
      by_cases hk : e.1 = k
      · simp [hk]
      · simp [hk, Ne.symm hk]

/-- A map made of a list of entries gives the last entry of a key. -/
theorem get?_ofList [Std.TransOrd κ] [Std.LawfulEqOrd κ] [DecidableEq κ] (es : List (κ × α)) (k : κ) :
    (ofList es).get? k = (es.reverse.find? fun e => decide (e.1 = k)).map Prod.snd := by
  rw [ofList, get?_foldl_insert]
  exact Option.or_none

/-- A map made of a list of entries has only entries of the list. -/
theorem mem_of_mem_ofList [Std.TransOrd κ] [Std.LawfulEqOrd κ] [DecidableEq κ] {es : List (κ × α)} {e : κ × α}
    (h : e ∈ (ofList es).entries) : e ∈ es := by
  obtain ⟨k, v⟩ := e
  rw [← get?_eq_some_iff, get?_ofList] at h
  obtain ⟨e, he, rfl⟩ := Option.map_eq_some_iff.1 h
  have hk : e.1 = k := by simpa using List.find?_some he
  subst hk
  exact List.mem_reverse.1 (List.mem_of_find?_eq_some he)

/-- A map is made of its entries. -/
theorem ofList_toList [Std.TransOrd κ] [Std.LawfulEqOrd κ] [DecidableEq κ] (m : SortedMap κ α) : ofList m.toList = m := by
  apply ext_get?
  intro k
  rw [get?_ofList]
  cases hfind : m.toList.reverse.find? fun e => decide (e.1 = k) with
  | some e =>
    have hk : e.1 = k := by simpa using List.find?_some hfind
    have he : e ∈ m.entries := List.mem_reverse.1 (List.mem_of_find?_eq_some hfind)
    exact (m.get?_eq_some_iff.2 (hk ▸ he)).symm
  | none =>
    cases hget : m.get? k with
    | none => rfl
    | some v =>
      have hne := List.find?_eq_none.1 hfind (k, v) (List.mem_reverse.2 (m.get?_eq_some_iff.1 hget))
      simp at hne

/-- Of the entries of two lists, those of the second count first. -/
theorem get?_ofList_append [Std.TransOrd κ] [Std.LawfulEqOrd κ] [DecidableEq κ] (es es' : List (κ × α)) (k : κ) :
    (ofList (es ++ es')).get? k = ((ofList es').get? k).or ((ofList es).get? k) := by
  rw [get?_ofList, get?_ofList, get?_ofList, List.reverse_append, List.find?_append, Option.map_or]

/-- An entry counts unless one of its key comes after it. -/
theorem get?_ofList_cons [Std.TransOrd κ] [Std.LawfulEqOrd κ] [DecidableEq κ] (e : κ × α) (es : List (κ × α)) (k : κ) :
    (ofList (e :: es)).get? k = ((ofList es).get? k).or (if e.1 = k then some e.2 else none) := by
  have hone : (ofList [e]).get? k = if e.1 = k then some e.2 else none := by
    rw [get?_ofList]
    by_cases hk : e.1 = k <;> simp [hk]
  rw [← hone, ← get?_ofList_append, List.singleton_append]

theorem get?_ofList_nil [Std.TransOrd κ] (k : κ) : (ofList ([] : List (κ × α))).get? k = none := rfl

/-- Where no key is repeated, the first entry of a key is the last one. -/
theorem get?_ofList_of_nodup [Std.TransOrd κ] [Std.LawfulEqOrd κ] [DecidableEq κ] {es : List (κ × α)}
    (h : (es.map Prod.fst).Nodup) (k : κ) : (ofList es).get? k = findEntry k es := by
  induction es with
  | nil => rfl
  | cons e es ih =>
    obtain ⟨he, hes⟩ := List.nodup_cons.1 h
    rw [get?_ofList_cons, ih hes, findEntry]
    by_cases hk : k = e.1
    · subst hk
      rw [findEntry_eq_none_iff.2 he]
      simp
    · simp [hk, Ne.symm hk]

/-- The entries of a map that is made of a list are those of the list, sorted. -/
theorem toList_ofList [Std.TransOrd κ] (es : List (κ × α)) : (ofList es).toList = sortEntries es := by
  have hfold : ∀ m : SortedMap κ α, (es.foldl (fun m e => m.insert e.1 e.2) m).toList =
      es.foldl (fun acc e => insertEntry e.1 e.2 acc) m.toList := by
    induction es with
    | nil => exact fun _ => rfl
    | cons e es ih => exact fun m => ih (m.insert e.1 e.2)
  exact hfold empty

/-- Of two maps laid over each other the upper one is asked first. -/
theorem get?_overlay [Std.TransOrd κ] [Std.LawfulEqOrd κ] [DecidableEq κ] (m n : SortedMap κ α) (k : κ) :
    (m.overlay n).get? k = (n.get? k).or (m.get? k) := by
  have hentries := get?_ofList n.toList k
  rw [ofList_toList] at hentries
  rw [overlay, get?_foldl_insert, hentries]
  rfl

end SortedMap

/-- Two sets with the same names are equal, since a set has nothing to say about a name beyond having it. -/
theorem NameSet.ext_contains {s t : NameSet} (h : ∀ n, s.contains n = t.contains n) : s = t := by
  apply SortedMap.ext_get?
  intro n
  have hn := h n
  unfold SortedMap.contains at hn
  cases hs : s.get? n <;> cases ht : t.get? n <;> simp [hs, ht] at hn ⊢

/-- The set of the names in a list has these names. -/
@[simp] theorem NameSet.contains_ofNames (names : List String) (n : String) :
    (NameSet.ofNames names).contains n = true ↔ n ∈ names := by
  rw [SortedMap.contains_eq_true_iff, NameSet.ofNames]
  simp only [SortedMap.get?_ofList, ← List.map_reverse, List.find?_map, Option.map_map]
  constructor
  · rintro ⟨v, hv⟩
    obtain ⟨x, hx, -⟩ := Option.map_eq_some_iff.1 hv
    have hxn : x = n := by simpa using List.find?_some hx
    subst hxn
    exact List.mem_reverse.1 (List.mem_of_find?_eq_some hx)
  · intro hn
    have hsome : (names.reverse.find? ((fun e : String × Unit => decide (e.1 = n)) ∘ fun n => (n, ()))).isSome := by
      rw [List.find?_isSome]
      exact ⟨n, List.mem_reverse.2 hn, by simp⟩
    obtain ⟨x, hx⟩ := Option.isSome_iff_exists.1 hsome
    exact ⟨(), by rw [hx]; rfl⟩

/-- Adding names to a set adds these and nothing else. -/
theorem NameSet.contains_addNames (s : NameSet) (names : List String) (n : String) :
    (s.addNames names).contains n = true ↔ s.contains n = true ∨ n ∈ names := by
  induction names generalizing s with
  | nil => simp [NameSet.addNames]
  | cons m rest ih =>
    have hstep : s.addNames (m :: rest) = NameSet.addNames (s.insert m ()) rest := rfl
    rw [hstep, ih, SortedMap.contains_insert, Bool.or_eq_true, decide_eq_true_eq, List.mem_cons, or_comm (a := n = m),
      or_assoc]

/-- A set is made of its names. -/
theorem NameSet.ofNames_keys (s : NameSet) : NameSet.ofNames s.keys = s := by
  apply NameSet.ext_contains
  intro n
  rw [Bool.eq_iff_iff, NameSet.contains_ofNames, SortedMap.mem_keys_iff]

namespace OrderedMap

variable {α β : Type}

theorem mem_insert {m : OrderedMap α} {k : String} {v : α} {e : String × α} (h : e ∈ insert m k v) :
    e = (k, v) ∨ e ∈ m := by
  induction m with
  | nil => exact .inl (List.mem_singleton.1 h)
  | cons x rest ih =>
    rw [insert] at h
    by_cases hx : x.1 = k
    · rw [if_pos hx] at h
      rcases List.mem_cons.1 h with rfl | h
      · exact .inl rfl
      · exact .inr (List.mem_cons_of_mem _ h)
    · rw [if_neg hx] at h
      rcases List.mem_cons.1 h with rfl | h
      · exact .inr List.mem_cons_self
      · rcases ih h with h | h
        · exact .inl h
        · exact .inr (List.mem_cons_of_mem _ h)

theorem mem_foldl_insert {es : List (String × α)} {m : OrderedMap α} {e : String × α}
    (h : e ∈ es.foldl (fun m e => insert m e.1 e.2) m) : e ∈ m ∨ e ∈ es := by
  induction es generalizing m with
  | nil => exact .inl h
  | cons x rest ih =>
    rw [List.foldl_cons] at h
    rcases ih h with h | h
    · rcases mem_insert h with rfl | h
      · exact .inr List.mem_cons_self
      · exact .inl h
    · exact .inr (List.mem_cons_of_mem _ h)

/-- Changing values by their keys and writing an entry may be done in either order. -/
theorem insert_map (f : String → α → β) (m : OrderedMap α) (k : String) (v : α) :
    insert (List.map (fun e => (e.1, f e.1 e.2)) m) k (f k v) = List.map (fun e => (e.1, f e.1 e.2)) (insert m k v) := by
  induction m with
  | nil => rfl
  | cons e rest ih =>
    rw [List.map_cons, insert, insert]
    by_cases he : e.1 = k
    · rw [if_pos he, if_pos he]
      rfl
    · rw [if_neg he, if_neg he, ih]
      rfl

/-- Values may be changed by their keys before or after the entries are written. -/
theorem ofEntries_map (f : String → α → β) (es : List (String × α)) :
    ofEntries (es.map fun e => (e.1, f e.1 e.2)) = List.map (fun e => (e.1, f e.1 e.2)) (ofEntries es) := by
  have hfold : ∀ m : OrderedMap α,
      (es.map fun e => (e.1, f e.1 e.2)).foldl (fun m e => insert m e.1 e.2) (List.map (fun e => (e.1, f e.1 e.2)) m) =
        List.map (fun e => (e.1, f e.1 e.2)) (es.foldl (fun m e => insert m e.1 e.2) m) := by
    induction es with
    | nil => intro m; rfl
    | cons e rest ih =>
      intro m
      rw [List.map_cons, List.foldl_cons, List.foldl_cons, insert_map]
      exact ih _
  exact hfold []

/-- Writing related values under one key keeps two maps related entry by entry. -/
theorem insert_forall₂ {R : α → β → Prop} {m : OrderedMap α} {m' : OrderedMap β}
    (h : List.Forall₂ (fun a b => b.1 = a.1 ∧ R a.2 b.2) m m') (k : String) {v : α} {v' : β} (hv : R v v') :
    List.Forall₂ (fun a b => b.1 = a.1 ∧ R a.2 b.2) (insert m k v) (insert m' k v') := by
  induction h with
  | nil => exact .cons ⟨rfl, hv⟩ .nil
  | @cons a b rest rest' hab hrest ih =>
    rw [insert, insert, hab.1]
    by_cases ha : a.1 = k
    · rw [if_pos ha, if_pos ha]
      exact .cons ⟨rfl, hv⟩ hrest
    · rw [if_neg ha, if_neg ha]
      exact .cons hab ih

/-- Lists of entries that are related one by one build maps that are related entry by entry. -/
theorem ofEntries_forall₂ {R : α → β → Prop} {es : List (String × α)} {es' : List (String × β)}
    (h : List.Forall₂ (fun a b => b.1 = a.1 ∧ R a.2 b.2) es es') :
    List.Forall₂ (fun a b => b.1 = a.1 ∧ R a.2 b.2) (ofEntries es) (ofEntries es') := by
  have hfold : ∀ (m : OrderedMap α) (m' : OrderedMap β), List.Forall₂ (fun a b => b.1 = a.1 ∧ R a.2 b.2) m m' →
      List.Forall₂ (fun a b => b.1 = a.1 ∧ R a.2 b.2) (es.foldl (fun m e => insert m e.1 e.2) m)
        (es'.foldl (fun m e => insert m e.1 e.2) m') := by
    induction h with
    | nil => intro m m' hm; exact hm
    | @cons a b rest rest' hab _ ih =>
      intro m m' hm
      rw [List.foldl_cons, List.foldl_cons, hab.1]
      exact ih _ _ (insert_forall₂ hm a.1 hab.2)
  exact hfold [] [] .nil

/-- A map in insertion order is empty exactly if nothing was written. -/
theorem ofEntries_eq_nil_iff (es : List (String × α)) : ofEntries es = [] ↔ es = [] := by
  have hinsert : ∀ (m : OrderedMap α) (k : String) (v : α), insert m k v ≠ [] := by
    intro m k v
    cases m with
    | nil => exact List.cons_ne_nil _ _
    | cons e rest =>
      rw [insert]
      split
      · exact List.cons_ne_nil _ _
      · exact List.cons_ne_nil _ _
  have hfold : ∀ (es : List (String × α)) (m : OrderedMap α), m ≠ [] → es.foldl (fun m e => insert m e.1 e.2) m ≠ [] := by
    intro es
    induction es with
    | nil => intro m hm; exact hm
    | cons e rest ih => intro m _; exact ih _ (hinsert m e.1 e.2)
  cases es with
  | nil => exact ⟨fun _ => rfl, fun _ => rfl⟩
  | cons e rest => exact ⟨fun h => absurd h (hfold rest _ (hinsert [] e.1 e.2)), fun h => by cases h⟩

theorem ofEntries_concat (es : List (String × α)) (e : String × α) :
    ofEntries (es ++ [e]) = insert (ofEntries es) e.1 e.2 := by
  simp [ofEntries, List.foldl_append]

/-- Writing an entry adds its key at the end, unless the key is there. -/
theorem keys_insert (m : OrderedMap α) (k : String) (v : α) :
    keys (insert m k v) = if k ∈ keys m then keys m else keys m ++ [k] := by
  induction m with
  | nil => rfl
  | cons e rest ih =>
    rw [insert]
    by_cases he : e.1 = k
    · simp [he, keys]
    · have hk : k ≠ e.1 := Ne.symm he
      have hcons : ∀ l : OrderedMap α, keys (e :: l) = e.1 :: keys l := fun _ => rfl
      rw [if_neg he, hcons, hcons, ih]
      by_cases hmem : k ∈ keys rest <;> simp [hmem, hk]

/-- The keys of written entries are in the order in which they were first written. -/
theorem keys_ofEntries (es : List (String × α)) : keys (ofEntries es) = (es.map Prod.fst).eraseDups := by
  induction es using List.reverseRecOn with
  | nil => rfl
  | append_singleton es e ih =>
    rw [ofEntries_concat, keys_insert, ih, List.map_append, List.eraseDups_append]
    simp only [List.mem_eraseDups, List.map_cons, List.map_nil, List.removeAll, List.elem_eq_mem]
    by_cases he : e.1 ∈ es.map Prod.fst
    · simp only [if_pos he, List.filter_cons, decide_eq_true he, List.filter_nil]
      simp
    · simp only [if_neg he, List.filter_cons, decide_eq_false he, List.filter_nil]
      rfl

/-- Of written entries the last one of a key is found. -/
theorem get?_ofEntries (es : List (String × α)) (k : String) :
    get? (ofEntries es) k = (es.reverse.find? fun e => decide (e.1 = k)).map Prod.snd := by
  induction es using List.reverseRecOn with
  | nil => rfl
  | append_singleton es e ih =>
    rw [ofEntries_concat, get?_insert, ih, List.reverse_append]
    by_cases he : e.1 = k
    · simp [he]
    · simp [he, Ne.symm he]

/-- What is found under a key is an entry of the map. -/
theorem mem_of_get? {m : OrderedMap α} {k : String} {v : α} (h : get? m k = some v) : (k, v) ∈ m := by
  induction m with
  | nil => cases h
  | cons e rest ih =>
    rw [get?] at h
    by_cases he : e.1 = k
    · rw [if_pos he] at h
      cases h
      cases he
      exact List.mem_cons_self
    · rw [if_neg he] at h
      exact List.mem_cons_of_mem _ (ih h)

theorem mem_values_of_get? {m : OrderedMap α} {k : String} {v : α} (h : get? m k = some v) : v ∈ values m :=
  List.mem_map_of_mem (mem_of_get? h)

/-- A map in insertion order has only entries that were written. -/
theorem mem_of_mem_ofEntries {es : List (String × α)} {e : String × α} (h : e ∈ ofEntries es) : e ∈ es := by
  rcases mem_foldl_insert h with h | h
  · exact absurd h List.not_mem_nil
  · exact h

/-- A map that was written has one entry for each key. -/
theorem distinct_ofEntries (es : List (String × α)) : Distinct (ofEntries es) := by
  induction es using List.reverseRecOn with
  | nil => exact .nil
  | append_singleton es e ih =>
    rw [Distinct, ofEntries_concat, keys_insert]
    split
    next => exact ih
    next he => exact List.nodup_append.2 ⟨ih, List.pairwise_singleton _ _, by grind⟩

/-- A new key is written at the end. -/
theorem insert_of_not_mem {m : OrderedMap α} {k : String} (hk : k ∉ keys m) (v : α) : insert m k v = m ++ [(k, v)] := by
  induction m with
  | nil => rfl
  | cons e rest ih =>
    obtain ⟨he, hrest⟩ := List.ne_and_not_mem_of_not_mem_cons hk
    rw [insert, if_neg (Ne.symm he), ih hrest]
    rfl

/-- Writing the entries of a map one after the other gives the map. -/
theorem ofEntries_of_distinct {m : OrderedMap α} (h : Distinct m) : ofEntries m = m := by
  induction m using List.reverseRecOn with
  | nil => rfl
  | append_singleton es e ih =>
    rw [Distinct, keys, List.map_append, List.nodup_append] at h
    obtain ⟨hes, -, hne⟩ := h
    rw [ofEntries_concat, ih hes]
    exact insert_of_not_mem (fun hmem => hne _ hmem _ List.mem_cons_self rfl) e.2

/-- A map finds its own entries. -/
theorem get?_of_mem {m : OrderedMap α} (hm : Distinct m) {e : String × α} (he : e ∈ m) : get? m e.1 = some e.2 := by
  induction m with
  | nil => exact absurd he List.not_mem_nil
  | cons f rest ih =>
    obtain ⟨hf, hrest⟩ := List.nodup_cons.1 hm
    rw [get?]
    rcases List.mem_cons.1 he with rfl | he
    · exact if_pos rfl
    · have hne : f.1 ≠ e.1 := fun heq => hf (heq ▸ List.mem_map_of_mem he)
      rw [if_neg hne]
      exact ih hrest he

/-- A changed map finds what its values are changed to. -/
theorem get?_map (f : α → β) (m : OrderedMap α) (k : String) :
    get? (List.map (fun e => (e.1, f e.2)) m) k = (get? m k).map f := by
  induction m with
  | nil => rfl
  | cons e rest ih =>
    rw [List.map_cons, get?, get?]
    by_cases he : e.1 = k
    · rw [if_pos he, if_pos he]
      rfl
    · rw [if_neg he, if_neg he, ih]

instance (m : OrderedMap α) : Decidable (Distinct m) := inferInstanceAs (Decidable (keys m).Nodup)

/-- What is found under a key is the value of its entry. -/
theorem get?_eq_some_iff {m : OrderedMap α} (hm : Distinct m) {k : String} {v : α} : get? m k = some v ↔ (k, v) ∈ m :=
  ⟨mem_of_get?, fun h => get?_of_mem hm h⟩

/-- The order of its entries does not matter to what a map finds. -/
theorem get?_of_perm {m m' : OrderedMap α} (hm : Distinct m) (hm' : Distinct m') (h : m'.Perm m) (k : String) :
    get? m' k = get? m k := by
  refine Option.ext fun v => ?_
  rw [get?_eq_some_iff hm, get?_eq_some_iff hm', h.mem_iff]

/-- Maps that find the same values have the same entries. -/
theorem perm_of_get? {m m' : OrderedMap α} (hm : Distinct m) (hm' : Distinct m') (h : ∀ k, get? m' k = get? m k) :
    m'.Perm m := by
  have hnodup : ∀ {l : OrderedMap α}, Distinct l → l.Nodup :=
    fun hl => (List.pairwise_map.1 hl).imp fun hne heq => hne (congrArg Prod.fst heq)
  refine (List.perm_ext_iff_of_nodup (hnodup hm') (hnodup hm)).2 fun e => ?_
  rw [← get?_eq_some_iff hm, ← get?_eq_some_iff hm', h]

end OrderedMap

end SdkLoom
