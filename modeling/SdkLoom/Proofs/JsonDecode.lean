import SdkLoom.Json.Decode
import SdkLoom.Proofs.JsonText

/-!
# Decoding written JSON values

What the readers of records, lists and members give for trees that were written: a value is free of faults, a record whose
names are distinct gives every known name what stands under it, and a list of entries is read entry by entry. Whatever a
reader gets to see of a tree is less deep than the tree.
-/

namespace SdkLoom

/-- A list of optional results is there exactly if all of them are. -/
theorem mapM_eq_some_iff {α β : Type} {f : α → Option β} {l : List α} {l' : List β} :
    l.mapM f = some l' ↔ List.Forall₂ (fun a b => f a = some b) l l' := by
  induction l generalizing l' with
  | nil =>
    constructor
    · intro h
      cases h
      exact .nil
    · intro h
      cases h
      rfl
  | cons a l ih =>
    rw [List.mapM_cons]
    constructor
    · intro h
      obtain ⟨b, hb, h⟩ := Option.bind_eq_some_iff.1 h
      obtain ⟨bs, hbs, h⟩ := Option.bind_eq_some_iff.1 h
      cases h
      exact .cons hb (ih.1 hbs)
    · rintro (_ | ⟨hb, hbs⟩)
      rw [hb, ih.2 hbs]
      rfl

/-- What stands under a key is found after all values are changed. -/
theorem lookup_map_snd {α β : Type} (f : α → β) (l : List (String × α)) (k : String) :
    (l.map fun e => (e.1, f e.2)).lookup k = (l.lookup k).map f := by
  induction l with
  | nil => rfl
  | cons e l ih =>
    obtain ⟨j, a⟩ := e
    rw [List.map_cons, List.lookup_cons, List.lookup_cons]
    cases k == j with
    | true => rfl
    | false => exact ih

namespace Json

theorem numberFreeItems_iff (items : List Json) : numberFreeItems items = true ↔ ∀ j ∈ items, j.numberFree = true := by
  induction items with
  | nil => simp [numberFreeItems]
  | cons j items ih => rw [numberFreeItems, Bool.and_eq_true, ih, List.forall_mem_cons]

theorem numberFreeMembers_iff (members : List (String × Json)) :
    numberFreeMembers members = true ↔ ∀ m ∈ members, m.2.numberFree = true := by
  induction members with
  | nil => simp [numberFreeMembers]
  | cons m members ih => rw [numberFreeMembers, Bool.and_eq_true, ih, List.forall_mem_cons]

namespace Tree

variable {ε α β : Type}

/-! ## Trees without faults -/

mutual

/-- A value is a tree without faults. -/
theorem faultless?_lift : ∀ j : Json, (lift j : Tree ε).faultless? = some j
  | .fault cause => nomatch cause
  | .null => rfl
  | .bool _ => rfl
  | .num _ => rfl
  | .str _ => rfl
  | .arr items => by rw [lift, faultless?, faultlessItems?_lift items, Option.map_some]
  | .obj members => by rw [lift, faultless?, faultlessMembers?_lift members, Option.map_some]

theorem faultlessItems?_lift : ∀ items : List Json, faultlessItems? (liftItems items : List (Tree ε)) = some items
  | [] => rfl
  | j :: items => by rw [liftItems, faultlessItems?, faultless?_lift j, faultlessItems?_lift items]

theorem faultlessMembers?_lift : ∀ members : List (String × Json),
    faultlessMembers? (liftMembers members : List (String × Tree ε)) = some members
  | [] => rfl
  | (k, j) :: members => by rw [liftMembers, faultlessMembers?, faultless?_lift j, faultlessMembers?_lift members]

end

mutual

/-- Lifting a value to a tree whose faults are impossible leaves it. -/
theorem lift_self : ∀ j : Json, lift j = j
  | .fault cause => nomatch cause
  | .null => rfl
  | .bool _ => rfl
  | .num _ => rfl
  | .str _ => rfl
  | .arr items => by rw [lift, liftItems_self items]
  | .obj members => by rw [lift, liftMembers_self members]

theorem liftItems_self : ∀ items : List Json, liftItems items = items
  | [] => rfl
  | j :: items => by rw [liftItems, lift_self j, liftItems_self items]

theorem liftMembers_self : ∀ members : List (String × Json), liftMembers members = members
  | [] => rfl
  | (k, j) :: members => by rw [liftMembers, lift_self j, liftMembers_self members]

end

@[simp] theorem faultless?_self (j : Json) : j.faultless? = some j := by
  have h := faultless?_lift (ε := Empty) j
  rwa [lift_self] at h

theorem liftMembers_eq_map (members : List (String × Json)) :
    (liftMembers members : List (String × Tree ε)) = members.map fun m => (m.1, lift m.2) := by
  induction members with
  | nil => rfl
  | cons m members ih => rw [liftMembers, ih, List.map_cons]

mutual

/-- A tree without faults is as deep as its value. -/
theorem depth_of_faultless? : ∀ {t : Tree ε} {j : Json}, t.faultless? = some j → j.depth = t.depth
  | .fault _, _, h => by cases h
  | .null, _, h => by cases h; rfl
  | .bool _, _, h => by cases h; rfl
  | .num _, _, h => by cases h; rfl
  | .str _, _, h => by cases h; rfl
  | .arr items, _, h => by
    rw [faultless?] at h
    obtain ⟨js, hjs, rfl⟩ := Option.map_eq_some_iff.1 h
    rw [depth, depth, depth_of_faultlessItems? hjs]
  | .obj members, _, h => by
    rw [faultless?] at h
    obtain ⟨js, hjs, rfl⟩ := Option.map_eq_some_iff.1 h
    rw [depth, depth, depth_of_faultlessMembers? hjs]

theorem depth_of_faultlessItems? : ∀ {items : List (Tree ε)} {js : List Json}, faultlessItems? items = some js →
    itemsDepth js = itemsDepth items
  | [], _, h => by cases h; rfl
  | t :: items, _, h => by
    rw [faultlessItems?] at h
    split at h
    next ht hitems =>
      cases h
      rw [itemsDepth, itemsDepth, depth_of_faultless? ht, depth_of_faultlessItems? hitems]
    next => cases h

theorem depth_of_faultlessMembers? : ∀ {members : List (String × Tree ε)} {js : List (String × Json)},
    faultlessMembers? members = some js → membersDepth js = membersDepth members
  | [], _, h => by cases h; rfl
  | (k, t) :: members, _, h => by
    rw [faultlessMembers?] at h
    split at h
    next ht hmembers =>
      cases h
      rw [membersDepth, membersDepth, depth_of_faultless? ht, depth_of_faultlessMembers? hmembers]
    next => cases h

end

/-! ## Entries -/

/-- Entries that can be read one by one are read as a list. -/
theorem entries?_obj_map {f : Tree ε → Option α} {g : α → Tree ε} {es : List (String × α)}
    (h : ∀ e ∈ es, f (g e.2) = some e.2) : entries? f (.obj (es.map fun e => (e.1, g e.2))) = some es := by
  refine mapM_eq_some_iff.2 (List.forall₂_map_left_iff.2 (List.forall₂_same.2 fun e he => ?_))
  simp only [h e he, Option.map_some]

/-- Entries are read from the values of members, which are less deep than the object. -/
theorem exists_of_entries? {f : Tree ε → Option α} {t : Tree ε} {es : List (String × α)} (h : entries? f t = some es) :
    0 < t.depth ∧ ∀ e ∈ es, ∃ v, f v = some e.2 ∧ v.depth < t.depth := by
  obtain ⟨ms, hms, h⟩ := Option.bind_eq_some_iff.1 h
  cases t with
  | obj members =>
    cases hms
    refine ⟨Nat.zero_lt_succ _, fun e he => ?_⟩
    obtain ⟨m, hm, hread⟩ := exists_rel_of_mem_right (mapM_eq_some_iff.1 h) he
    obtain ⟨a, ha, rfl⟩ := Option.map_eq_some_iff.1 hread
    exact ⟨m.2, ha, Nat.lt_succ_of_le (depth_le_membersDepth hm)⟩
  | _ => cases hms

/-- Entries are sound and less deep than the object if what is read from a value is sound and no deeper than the value. -/
theorem sound_of_entries? {f : Tree ε → Option α} {P : α → Prop} {g : α → Json}
    (hf : ∀ {v a}, f v = some a → P a ∧ (g a).depth ≤ v.depth) {t : Tree ε} {es : List (String × α)}
    (h : entries? f t = some es) : ∀ e ∈ es, P e.2 ∧ (g e.2).depth < t.depth := by
  intro e he
  obtain ⟨v, hv, hlt⟩ := (exists_of_entries? h).2 e he
  obtain ⟨hsound, hle⟩ := hf hv
  exact ⟨hsound, Nat.lt_of_le_of_lt hle hlt⟩

end Tree

/-! ## Records -/

namespace Record

variable {β : Type}

/-- A record of members gives a known name what stands under it. -/
theorem get?_of_ofMembers? {names : List String} {members : List (String × β)} {r : Record β}
    (h : ofMembers? names members = some r) {n : String} (hn : n ∈ names) : r.get? n = members.lookup n := by
  obtain ⟨-, h⟩ := Option.ite_none_right_eq_some.1 h
  cases h
  show (members.filter fun m => names.contains m.1).lookup n = members.lookup n
  clear h
  induction members with
  | nil => rfl
  | cons m members ih =>
    obtain ⟨k, v⟩ := m
    by_cases hk : n = k
    · subst hk
      simp [hn]
    · by_cases hknown : k ∈ names
      · simpa [hknown, List.lookup_cons, beq_false_of_ne hk] using ih
      · simpa [hknown, List.lookup_cons, beq_false_of_ne hk] using ih

/-- Members of distinct names are a record. -/
theorem exists_ofMembers? {members : List (String × β)} (h : (members.map Prod.fst).Nodup) (names : List String) :
    ∃ r, ofMembers? names members = some r :=
  ⟨_, if_pos (h.sublist (List.filter_sublist.map _))⟩

theorem mem_of_get? {r : Record β} {n : String} {v : β} (h : r.get? n = some v) : (n, v) ∈ r.fields := by
  obtain ⟨l, l', heq, -⟩ := List.lookup_eq_some_iff.1 h
  rw [heq]
  exact List.mem_append_right _ List.mem_cons_self

/-- A field is given by a member of its name. -/
theorem mem_of_ofMembers? {names : List String} {members : List (String × β)} {r : Record β}
    (h : ofMembers? names members = some r) {n : String} {v : β} (hv : r.get? n = some v) : (n, v) ∈ members := by
  obtain ⟨-, h⟩ := Option.ite_none_right_eq_some.1 h
  cases h
  exact (List.mem_filter.1 (mem_of_get? hv)).1

/-- A field is given by an item. -/
theorem mem_of_ofItems? {names : List String} {items : List β} {r : Record β} (h : ofItems? names items = some r)
    {n : String} {v : β} (hv : r.get? n = some v) : v ∈ items := by
  obtain ⟨-, h⟩ := Option.ite_none_right_eq_some.1 h
  cases h
  exact (List.of_mem_zip (mem_of_get? hv)).2

end Record

/-- What a record gives for a field is less deep than the tree that it was made of. -/
theorem Tree.depth_lt_of_record? {ε : Type} {names : List String} {t : Tree ε} {r : Record (Tree ε)}
    (h : t.record? names = some r) {n : String} {v : Tree ε} (hv : r.get? n = some v) : v.depth < t.depth := by
  cases t with
  | obj members =>
    exact Nat.lt_succ_of_le (Tree.depth_le_membersDepth (Record.mem_of_ofMembers? h hv))
  | arr items =>
    exact Nat.lt_succ_of_le ((Tree.itemsDepth_le_iff items _).1 (Nat.le_refl _) _ (Record.mem_of_ofItems? h hv))
  | _ => cases h

end Json

end SdkLoom
