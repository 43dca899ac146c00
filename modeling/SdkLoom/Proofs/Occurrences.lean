import Mathlib.Data.List.Infix
import SdkLoom.Text.Search

/-!
# Occurrences of one text in another

Where a text is put together from parts, another text may occur in a part or across the seam of two. It cannot lie across a
seam if the character before the seam is none that it has before its end, or if the character after the seam is none that
it has after its start (`contains_append_of_endsApart`, `contains_append_of_startsApart`). Replacing all occurrences of a
text writes another in the seams of pieces in which it does not occur (`replaced_iff`). Counting the occurrences and replacing
the first of them pass over a front that lacks the first character of the text (`occurrences_append`, `replaceNext_append`).
-/

namespace SdkLoom.Text

theorem occursIn_iff (part cs : List Char) : occursIn part cs = true ↔ part <:+: cs := by
  induction cs with
  | nil => rw [occursIn, List.isEmpty_iff, List.infix_nil]
  | cons c cs ih => rw [occursIn, Bool.or_eq_true, List.isPrefixOf_iff_prefix, ih, List.infix_cons_iff]

theorem contains_iff (s part : String) : contains s part = true ↔ part.toList <:+: s.toList := occursIn_iff _ _

/-! ## Seams -/

section Seams

variable {part a b : List Char} {c : Char}

/-- Nothing lies across a seam if the character before it can only be the last one. -/
theorem infix_append_iff_of_getLast? (ha : a.getLast? = some c) (hc : c ∉ part.dropLast) :
    part <:+: a ++ b ↔ part <:+: a ∨ part <:+: b := by
  refine ⟨fun h => ?_, fun h => List.infix_append_iff.2 (h.imp_right .inl)⟩
  rcases List.infix_append_iff.1 h with h | h | ⟨u, v, rfl, hu, hv⟩
  · exact .inl h
  · exact .inr h
  · rcases List.eq_nil_or_concat u with rfl | ⟨u, x, rfl⟩
    · exact .inr hv.isInfix
    · cases v with
      | nil => exact .inl (by rw [List.append_nil]; exact hu.isInfix)
      | cons y v =>
        obtain ⟨w, rfl⟩ := hu
        refine absurd ?_ hc
        rw [List.dropLast_append_cons, List.mem_append]
        simp_all

/-- Nothing lies across a seam if the character after it can only be the first one. -/
theorem infix_append_iff_of_head? (hb : b.head? = some c) (hc : c ∉ part.tail) :
    part <:+: a ++ b ↔ part <:+: a ∨ part <:+: b := by
  refine ⟨fun h => ?_, fun h => List.infix_append_iff.2 (h.imp_right .inl)⟩
  rcases List.infix_append_iff.1 h with h | h | ⟨u, v, rfl, hu, hv⟩
  · exact .inl h
  · exact .inr h
  · cases v with
    | nil => exact .inl (by rw [List.append_nil]; exact hu.isInfix)
    | cons y v =>
      cases u with
      | nil => exact .inr hv.isInfix
      | cons x u =>
        obtain ⟨w, rfl⟩ := hv
        cases hb
        exact absurd (List.mem_append_right u List.mem_cons_self) hc

/-- What ends with a character that it has nowhere else lies across the seam before that character only if all the rest of
it stands before the seam. -/
theorem infix_append_cons_iff {u : List Char} (hc : c ∉ u) :
    u ++ [c] <:+: a ++ c :: b ↔ u ++ [c] <:+: a ∨ u <:+ a ∨ u ++ [c] <:+: b := by
  constructor
  · intro h
    rcases List.infix_append_iff.1 h with h | h | ⟨x, y, hxy, hx, hy⟩
    · exact .inl h
    · rcases List.infix_cons_iff.1 h with h | h
      · cases u with
        | nil => exact .inr (.inl List.nil_suffix)
        | cons d u => exact absurd ((List.cons_prefix_cons.1 h).1 ▸ List.mem_cons_self) hc
      · exact .inr (.inr h)
    · rcases List.eq_nil_or_concat y with rfl | ⟨y, d, rfl⟩
      · rw [List.append_nil] at hxy
        exact .inl (hxy ▸ hx.isInfix)
      · rw [List.concat_eq_append, ← List.append_assoc] at hxy
        obtain ⟨rfl, hd⟩ := List.append_inj' hxy rfl
        cases hd
        -- the second part starts with the character, so nothing of the rest of the text is in it
        cases y with
        | nil => exact .inr (.inl (by rw [List.append_nil]; exact hx))
        | cons d y =>
          rw [List.concat_eq_append, List.cons_append] at hy
          exact absurd (List.mem_append_right x ((List.cons_prefix_cons.1 hy).1 ▸ List.mem_cons_self)) hc
  · rintro (h | ⟨w, rfl⟩ | h)
    · exact List.infix_append_iff.2 (.inl h)
    · exact ⟨w, b, by simp⟩
    · exact List.infix_append_iff.2 (.inr (.inl (h.trans (List.suffix_cons ..).isInfix)))

end Seams

/-- Whether a text starts with a character that `part` has at most at its start. -/
def startsApart (part s : String) : Bool := s.toList.head?.any fun c => !part.toList.tail.contains c

/-- Whether a text ends with a character that `part` has at most at its end. -/
def endsApart (part s : String) : Bool := s.toList.getLast?.any fun c => !part.toList.dropLast.contains c

theorem startsApart_append {part s : String} (h : startsApart part s = true) (t : String) :
    startsApart part (s ++ t) = true := by
  obtain ⟨c, hhead, hc⟩ := (Option.any_eq_true ..).1 h
  rw [startsApart, String.toList_append, List.head?_append, hhead]
  exact hc

theorem endsApart_append {part t : String} (h : endsApart part t = true) (s : String) :
    endsApart part (s ++ t) = true := by
  obtain ⟨c, hlast, hc⟩ := (Option.any_eq_true ..).1 h
  rw [endsApart, String.toList_append, List.getLast?_append, hlast]
  exact hc

theorem contains_append_of_startsApart {part t : String} (h : startsApart part t = true) (s : String) :
    contains (s ++ t) part = (contains s part || contains t part) := by
  obtain ⟨c, hhead, hc⟩ := (Option.any_eq_true ..).1 h
  rw [Bool.eq_iff_iff, Bool.or_eq_true, contains_iff, contains_iff, contains_iff, String.toList_append]
  exact infix_append_iff_of_head? hhead (by simpa using hc)

theorem contains_append_of_endsApart {part s : String} (h : endsApart part s = true) (t : String) :
    contains (s ++ t) part = (contains s part || contains t part) := by
  obtain ⟨c, hlast, hc⟩ := (Option.any_eq_true ..).1 h
  rw [Bool.eq_iff_iff, Bool.or_eq_true, contains_iff, contains_iff, contains_iff, String.toList_append]
  exact infix_append_iff_of_getLast? hlast (by simpa using hc)

/-- What lacks a character of a text does not contain the text. -/
theorem contains_eq_false_of_not_mem {s part : String} {c : Char} (hpart : c ∈ part.toList) (hs : c ∉ s.toList) :
    contains s part = false := by
  rw [← Bool.not_eq_true, contains_iff]
  exact fun h => hs (h.subset hpart)

theorem contains_empty {part : String} (hpart : part ≠ "") : contains "" part = false := by
  rw [← Bool.not_eq_true, contains_iff]
  simpa using hpart

/-- A text is contained in texts put together, each of which starts apart, if one of them contains it. -/
theorem contains_join {part : String} (hpart : part ≠ "") {ts : List String}
    (h : ∀ t ∈ ts, startsApart part t = true) : contains (String.join ts) part = ts.any fun t => contains t part := by
  induction ts with
  | nil => exact contains_empty hpart
  | cons t ts ih =>
    have hrest := ih fun u hu => h u (List.mem_cons_of_mem _ hu)
    rw [String.join_cons, List.any_cons, ← hrest]
    cases ts with
    | nil =>
      have hnil : String.join [] = "" := rfl
      rw [hnil, String.append_empty, contains_empty hpart, Bool.or_false]
    | cons u ts =>
      refine contains_append_of_startsApart ?_ t
      rw [String.join_cons]
      exact startsApart_append (h u (List.mem_cons_of_mem _ List.mem_cons_self)) _

/-- A text is contained in a list with separators that stand apart if an item contains it. -/
theorem contains_intercalate {part sep : String} (hpart : part ≠ "") (hstarts : startsApart part sep = true)
    (hends : endsApart part sep = true) (hsep : contains sep part = false) (ts : List String) :
    contains (sep.intercalate ts) part = ts.any fun t => contains t part := by
  induction ts with
  | nil => exact contains_empty hpart
  | cons t ts ih =>
    cases ts with
    | nil => rw [String.intercalate_singleton, List.any_cons, List.any_nil, Bool.or_false]
    | cons u ts =>
      rw [String.intercalate_cons_cons, contains_append_of_endsApart (endsApart_append hends t),
        contains_append_of_startsApart hstarts, hsep, Bool.or_false, ih]
      rfl

/-- A character of a list with separators is one of the separator or of an item. -/
theorem mem_intercalate {sep : String} {ts : List String} {c : Char} (h : c ∈ (sep.intercalate ts).toList) :
    c ∈ sep.toList ∨ ∃ t ∈ ts, c ∈ t.toList := by
  induction ts with
  | nil => cases h
  | cons t ts ih =>
    cases ts with
    | nil =>
      rw [String.intercalate_singleton] at h
      exact .inr ⟨t, List.mem_cons_self, h⟩
    | cons u ts =>
      rw [String.intercalate_cons_cons, String.toList_append, String.toList_append, List.mem_append, List.mem_append] at h
      rcases h with (h | h) | h
      · exact .inr ⟨t, List.mem_cons_self, h⟩
      · exact .inl h
      · exact (ih h).imp_right fun ⟨v, hv, hc⟩ => ⟨v, List.mem_cons_of_mem _ hv, hc⟩

/-! ## Replacing all occurrences -/

section Replacing

variable {part : List Char}

/-- No end of a text but the whole of it and nothing is also a start of it, so that two occurrences cannot overlap. -/
def Borderless (part : List Char) : Prop := ∀ x ∈ part.tails.tail, x ≠ [] → ¬ x <+: part

instance (part : List Char) : Decidable (Borderless part) :=
  inferInstanceAs (Decidable (∀ x ∈ part.tails.tail, x ≠ [] → ¬ x <+: part))

theorem replaceFrom_skip (part new : List Char) (k : Nat) (cs : List Char) :
    replaceFrom part new k cs = replaceFrom part new 0 (cs.drop k) := by
  induction cs generalizing k with
  | nil => cases k <;> rfl
  | cons c cs ih =>
    cases k with
    | zero => rfl
    | succ k => rw [replaceFrom, List.drop_succ_cons, ih]

/-- An occurrence at the front is replaced. -/
theorem replaceFrom_append (hpart : part ≠ []) (new cs : List Char) :
    replaceFrom part new 0 (part ++ cs) = new ++ replaceFrom part new 0 cs := by
  obtain ⟨c, rest, rfl⟩ := List.exists_cons_of_ne_nil hpart
  have hfront : (c :: rest).isPrefixOf (c :: (rest ++ cs)) = true := by
    rw [List.isPrefixOf_iff_prefix]
    exact List.prefix_append _ _
  rw [List.cons_append, replaceFrom, if_pos hfront, replaceFrom_skip]
  simp

/-- What comes before the first occurrence stays. -/
theorem replaceFrom_of_free (new cs : List Char) {p : List Char} (h : ∀ x, x <:+ p → x ≠ [] → ¬ part <+: x ++ cs) :
    replaceFrom part new 0 (p ++ cs) = p ++ replaceFrom part new 0 cs := by
  induction p with
  | nil => rfl
  | cons c p ih =>
    have hfront : part.isPrefixOf (c :: (p ++ cs)) = false := by
      rw [← Bool.not_eq_true, List.isPrefixOf_iff_prefix]
      exact h _ (List.suffix_refl _) (List.cons_ne_nil _ _)
    rw [List.cons_append, replaceFrom, hfront, if_neg Bool.false_ne_true,
      ih fun x hx => h x (hx.trans (List.suffix_cons ..)), List.cons_append]

/-- In a piece that `part` does not occur in, no occurrence starts that runs into an occurrence after the piece. -/
theorem not_prefix_of_free (hborder : Borderless part) {p x : List Char} (hp : ¬ part <:+: p) (hx : x <:+ p) (hne : x ≠ [])
    (cs : List Char) : ¬ part <+: x ++ (part ++ cs) := by
  intro h
  rcases List.prefix_or_prefix_of_prefix h (List.prefix_append x _) with hlong | ⟨y, hy⟩
  · exact hp (hlong.isInfix.trans hx.isInfix)
  · have hover : x ++ y <+: x ++ (part ++ cs) := by
      rw [hy]
      exact h
    have hstart : y <+: part := by
      refine List.prefix_of_prefix_length_le ((List.prefix_append_right_inj x).1 hover) (List.prefix_append part cs) ?_
      rw [← hy]
      simp
    by_cases hyne : y = []
    · rw [hyne, List.append_nil] at hy
      exact hp (hy ▸ hx.isInfix)
    · refine hborder y ?_ hyne hstart
      obtain ⟨c, x, rfl⟩ := List.exists_cons_of_ne_nil hne
      rw [← hy, List.cons_append, List.tails_cons, List.tail_cons, List.mem_tails]
      exact List.suffix_append x y

/-- Replacing all occurrences writes another text between pieces in which the first does not occur. -/
theorem replaceFrom_intercalate (hpart : part ≠ []) (hborder : Borderless part) (new : List Char)
    {pieces : List (List Char)} (hfree : ∀ p ∈ pieces, ¬ part <:+: p) :
    replaceFrom part new 0 (part.intercalate pieces) = new.intercalate pieces := by
  induction pieces with
  | nil => rfl
  | cons p pieces ih =>
    have hp := hfree p List.mem_cons_self
    cases pieces with
    | nil =>
      rw [List.intercalate_singleton, List.intercalate_singleton]
      have hlast := replaceFrom_of_free new [] fun x hx _ hpre =>
        hp ((List.append_nil x ▸ hpre).isInfix.trans hx.isInfix)
      simpa [replaceFrom] using hlast
    | cons q pieces =>
      rw [List.intercalate_cons_cons, List.intercalate_cons_cons, List.append_assoc, List.append_assoc,
        replaceFrom_of_free new _ fun x hx hne => not_prefix_of_free hborder hp hx hne _, replaceFrom_append hpart,
        ih fun r hr => hfree r (List.mem_cons_of_mem _ hr)]

/-- Every text can be cut into pieces in which another does not occur. -/
theorem exists_pieces (hpart : part ≠ []) (cs : List Char) :
    ∃ pieces, cs = part.intercalate pieces ∧ ∀ p ∈ pieces, ¬ part <:+: p := by
  induction hn : cs.length using Nat.strong_induction_on generalizing cs with
  | _ n ih =>
    subst hn
    by_cases hfront : part <+: cs
    · -- an occurrence at the front starts with an empty piece
      obtain ⟨rest, rfl⟩ := hfront
      have hlength := List.length_pos_iff.2 hpart
      obtain ⟨pieces, hrest, hfree⟩ := ih rest.length (by rw [List.length_append]; omega) rest rfl
      have hnil : ¬ part <:+: [] := by rwa [List.infix_nil]
      cases pieces with
      | nil =>
        refine ⟨[[], []], by rw [hrest]; simp [List.intercalate_cons_cons], ?_⟩
        simpa using hnil
      | cons p pieces =>
        refine ⟨[] :: p :: pieces, by rw [hrest, List.intercalate_cons_cons]; rfl, ?_⟩
        exact List.forall_mem_cons.2 ⟨hnil, hfree⟩
    · cases cs with
      | nil => exact ⟨[], rfl, fun p hp => absurd hp List.not_mem_nil⟩
      | cons c cs =>
        obtain ⟨pieces, hrest, hfree⟩ := ih cs.length (Nat.lt_succ_self _) cs rfl
        -- a character that starts no occurrence joins the piece after it
        cases pieces with
        | nil =>
          have hcs : cs = [] := hrest
          subst hcs
          refine ⟨[[c]], by rw [List.intercalate_singleton], ?_⟩
          simpa [List.infix_cons_iff, hpart] using hfront
        | cons p pieces =>
          refine ⟨(c :: p) :: pieces, ?_, ?_⟩
          · rw [hrest]
            cases pieces <;> simp [List.intercalate_cons_cons]
          · refine List.forall_mem_cons.2 ⟨fun h => ?_, fun q hq => hfree q (List.mem_cons_of_mem _ hq)⟩
            rcases List.infix_cons_iff.1 h with h | h
            · refine hfront (h.trans (List.prefix_cons_inj c |>.2 ?_))
              rw [hrest]
              cases pieces with
              | nil => rw [List.intercalate_singleton]
              | cons q pieces =>
                rw [List.intercalate_cons_cons, List.append_assoc]
                exact List.prefix_append _ _
            · exact hfree p List.mem_cons_self h

end Replacing

/-- A text is another one with every occurrence of `part` replaced: the other is cut at the occurrences into pieces. -/
def Replaced (s part new t : String) : Prop :=
  ∃ pieces : List String, s = part.intercalate pieces ∧ (∀ p ∈ pieces, contains p part = false) ∧ t = new.intercalate pieces

/-- All occurrences of a text that cannot overlap are replaced, and there is one way to do so. -/
theorem replaced_iff {part : String} (hpart : part ≠ "") (hborder : Borderless part.toList) (s new t : String) :
    Replaced s part new t ↔ t = replaceAll s part new := by
  have hne : part.toList ≠ [] := by simpa using hpart
  constructor
  · rintro ⟨pieces, rfl, hfree, rfl⟩
    rw [replaceAll, String.toList_intercalate, replaceFrom_intercalate hne hborder, ← String.toList_intercalate,
      String.ofList_toList]
    intro p hp
    obtain ⟨q, hq, rfl⟩ := List.mem_map.1 hp
    rw [← contains_iff, hfree q hq]
    exact Bool.false_ne_true
  · rintro rfl
    obtain ⟨pieces, hs, hfree⟩ := exists_pieces hne s.toList
    have hmap : (pieces.map String.ofList).map String.toList = pieces := by simp
    refine ⟨pieces.map String.ofList, ?_, ?_, ?_⟩
    · rw [← String.toList_inj, String.toList_intercalate, hmap, hs]
    · intro p hp
      obtain ⟨q, hq, rfl⟩ := List.mem_map.1 hp
      rw [← Bool.not_eq_true, contains_iff, String.toList_ofList]
      exact hfree q hq
    · rw [← String.toList_inj, String.toList_intercalate, hmap, replaceAll, String.toList_ofList, hs,
        replaceFrom_intercalate hne hborder _ hfree]

/-! ## Counting occurrences and replacing the first -/

/-- The number of places at which `part` starts in a text. -/
def occurrences (part : List Char) : List Char → Nat
  | [] => 0
  | c :: rest => (if part.isPrefixOf (c :: rest) then 1 else 0) + occurrences part rest

/-- The number of places at which a text occurs in another. -/
def count (s part : String) : Nat := occurrences part.toList s.toList

theorem occurrences_eq_zero_iff {part : List Char} (hpart : part ≠ []) (cs : List Char) :
    occurrences part cs = 0 ↔ occursIn part cs = false := by
  induction cs with
  | nil => simp [occurrences, occursIn, hpart]
  | cons c cs ih =>
    rw [occurrences, occursIn, Nat.add_eq_zero_iff, Bool.or_eq_false_iff, ih]
    cases part.isPrefixOf (c :: cs) <;> simp

theorem count_eq_zero_iff {part : String} (hpart : part ≠ "") (s : String) :
    count s part = 0 ↔ contains s part = false :=
  occurrences_eq_zero_iff (by simpa using hpart) s.toList

/-- Replaces the first occurrence of `part`. -/
def replaceNext (part new : List Char) : List Char → List Char
  | [] => []
  | c :: rest =>
    if part.isPrefixOf (c :: rest) then new ++ (c :: rest).drop part.length else c :: replaceNext part new rest

/-- Replaces the first occurrence of a text that is not empty. -/
def replaceFirst (s part new : String) : String := String.ofList (replaceNext part.toList new.toList s.toList)

section First

variable {c : Char} {tail a : List Char}

/-- Nothing occurs where its first character does not. -/
theorem isPrefixOf_cons_of_ne {x : Char} (h : x ≠ c) (cs : List Char) : (c :: tail).isPrefixOf (x :: cs) = false := by
  simp [List.isPrefixOf, Ne.symm h]

/-- No occurrence starts in a front that lacks the first character. -/
theorem occurrences_append (h : c ∉ a) (b : List Char) :
    occurrences (c :: tail) (a ++ b) = occurrences (c :: tail) b := by
  induction a with
  | nil => rfl
  | cons x a ih =>
    rw [List.mem_cons, not_or] at h
    obtain ⟨hx, ha⟩ := h
    rw [List.cons_append, occurrences, isPrefixOf_cons_of_ne (Ne.symm hx), ih ha]
    simp

/-- A front that lacks the first character stays. -/
theorem replaceNext_append (h : c ∉ a) (new b : List Char) :
    replaceNext (c :: tail) new (a ++ b) = a ++ replaceNext (c :: tail) new b := by
  induction a with
  | nil => rfl
  | cons x a ih =>
    rw [List.mem_cons, not_or] at h
    obtain ⟨hx, ha⟩ := h
    rw [List.cons_append, replaceNext, isPrefixOf_cons_of_ne (Ne.symm hx), ih ha]
    rfl

end First

/-- An occurrence at the front is replaced, and the rest stays. -/
theorem replaceNext_front {part : List Char} (hpart : part ≠ []) (new cs : List Char) :
    replaceNext part new (part ++ cs) = new ++ cs := by
  obtain ⟨c, rest, rfl⟩ := List.exists_cons_of_ne_nil hpart
  have hfront : (c :: rest).isPrefixOf (c :: (rest ++ cs)) = true := by
    rw [List.isPrefixOf_iff_prefix]
    exact List.prefix_append _ _
  rw [List.cons_append, replaceNext, if_pos hfront]
  simp

end SdkLoom.Text
