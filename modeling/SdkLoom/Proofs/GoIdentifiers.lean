import Mathlib.Data.List.Infix
import Mathlib.Data.List.Nodup
import SdkLoom.Go.Identifier

/-!
# Which names share an identifier

Exporting a name changes a letter at its front to upper case, or puts an `X` before what is no letter. Names are exported
as one identifier exactly if they are `Alike`: they differ in no more than the case of that letter, or one of them is the
other after an `x` (`exported_eq_iff`). The identifiers that an operation takes in the package of the client add a prefix
or an ending to the exported name; these are told apart in turn (`sdkIdents_nodup_iff`).
-/

namespace SdkLoom.Go

/-! ## Exported names -/

/-- Two names that differ at most in the case of a letter at their front. -/
def CaseVariants (a b : String) : Prop :=
  ∃ c d rest, a.toList = c :: rest ∧ b.toList = d :: rest ∧ c.isAlpha = true ∧ d.isAlpha = true ∧ c.toUpper = d.toUpper

/-- The second name is an `x` of either case and then the first, which starts with no letter. -/
def Escapes (a b : String) : Prop :=
  ∃ c rest, a.toList = c :: rest ∧ c.isAlpha = false ∧ (b.toList = 'X' :: c :: rest ∨ b.toList = 'x' :: c :: rest)

/-- Two names that no exported identifier tells apart. -/
def Alike (a b : String) : Prop := a = b ∨ CaseVariants a b ∨ Escapes a b ∨ Escapes b a

theorem toList_exported_of_letter {a : String} {c : Char} {rest : List Char} (h : a.toList = c :: rest)
    (hc : c.isAlpha = true) : (exported a).toList = c.toUpper :: rest := by
  simp only [exported, h, hc, if_true, String.toList_ofList]

theorem toList_exported_of_other {a : String} {c : Char} {rest : List Char} (h : a.toList = c :: rest)
    (hc : c.isAlpha = false) : (exported a).toList = 'X' :: c :: rest := by
  have hexported : exported a = "X" ++ a := by simp [exported, h, hc]
  rw [hexported, String.toList_append, h]
  rfl

/-- A letter is made an upper case one. -/
theorem isUpper_toUpper_of_isAlpha {c : Char} (hc : c.isAlpha = true) : c.toUpper.isUpper = true := by
  have hcase : c.isUpper = true ∨ c.isLower = true := (Bool.or_eq_true _ _).mp hc
  unfold Char.toUpper
  split
  next hlower =>
    refine decide_eq_true (p := _ ∧ _) ?_
    grind
  next hlower =>
    refine hcase.resolve_right fun h => hlower ?_
    obtain ⟨hge, hle⟩ := (Bool.and_eq_true _ _).mp h
    exact ⟨of_decide_eq_true hge, of_decide_eq_true hle⟩

theorem exported_eq_empty_iff (a : String) : exported a = "" ↔ a = "" := by
  constructor
  · intro h
    have hnil : (exported a).toList = [] := by rw [h]; rfl
    cases ha : a.toList with
    | nil => exact String.toList_inj.1 ha
    | cons c rest =>
      cases hc : c.isAlpha with
      | true =>
        rw [toList_exported_of_letter ha hc] at hnil
        cases hnil
      | false =>
        rw [toList_exported_of_other ha hc] at hnil
        cases hnil
  · rintro rfl
    rfl

/-- Only an `x` of either case has an `X` as its upper case. -/
theorem toUpper_eq_X_iff (c : Char) : c.toUpper = 'X' ↔ c = 'X' ∨ c = 'x' := by
  constructor
  · intro h
    unfold Char.toUpper at h
    split at h
    next hlower =>
      have hval := congrArg Char.val h
      simp only at hval
      refine .inr (Char.ext ?_)
      calc c.val = c.val + ('A'.val - 'a'.val) - ('A'.val - 'a'.val) := (UInt32.add_sub_cancel _ _).symm
        _ = 'x'.val := by rw [hval]; decide
    next => exact .inl h
  · rintro (rfl | rfl)
    · decide
    · decide

/-- A letter at the front of one name and none at the front of another: they are exported as one identifier exactly if the
first is an `x` and then the second. -/
theorem exported_eq_iff_escapes {a b : String} {c d : Char} {rest rest' : List Char} (ha : a.toList = c :: rest)
    (hc : c.isAlpha = true) (hb : b.toList = d :: rest') (hd : d.isAlpha = false) :
    exported a = exported b ↔ Escapes b a := by
  rw [← String.toList_inj, toList_exported_of_letter ha hc, toList_exported_of_other hb hd, List.cons_eq_cons,
    toUpper_eq_X_iff, Escapes, ha]
  simp only [hb, List.cons.injEq]
  constructor
  · rintro ⟨hx, hrest⟩
    refine ⟨d, rest', ⟨rfl, rfl⟩, hd, ?_⟩
    exact hx.imp (fun hx => ⟨hx, hrest⟩) fun hx => ⟨hx, hrest⟩
  · rintro ⟨_, _, ⟨rfl, rfl⟩, -, ⟨hx, hrest⟩ | ⟨hx, hrest⟩⟩
    · exact ⟨.inl hx, hrest⟩
    · exact ⟨.inr hx, hrest⟩

/-- Names have the same exported identifier exactly if they are alike. -/
theorem exported_eq_iff (a b : String) : exported a = exported b ↔ Alike a b := by
  constructor
  · intro h
    by_cases ha : a = ""
    · have hb := (exported_eq_empty_iff b).1 (h ▸ (exported_eq_empty_iff a).2 ha)
      exact .inl (ha.trans hb.symm)
    have hb : b ≠ "" := fun hb => ha ((exported_eq_empty_iff a).1 (h ▸ (exported_eq_empty_iff b).2 hb))
    obtain ⟨c, rest, ha⟩ := List.exists_cons_of_ne_nil (mt String.toList_eq_nil_iff.1 ha)
    obtain ⟨d, rest', hb⟩ := List.exists_cons_of_ne_nil (mt String.toList_eq_nil_iff.1 hb)
    cases hc : c.isAlpha <;> cases hd : d.isAlpha
    · rw [← String.toList_inj, toList_exported_of_other ha hc, toList_exported_of_other hb hd, ← ha, ← hb] at h
      exact .inl (String.toList_inj.1 (List.cons.inj h).2)
    · exact .inr (.inr (.inl ((exported_eq_iff_escapes hb hd ha hc).1 h.symm)))
    · exact .inr (.inr (.inr ((exported_eq_iff_escapes ha hc hb hd).1 h)))
    · rw [← String.toList_inj, toList_exported_of_letter ha hc, toList_exported_of_letter hb hd, List.cons_eq_cons] at h
      obtain ⟨hupper, rfl⟩ := h
      exact .inr (.inl ⟨c, d, rest, ha, hb, hc, hd, hupper⟩)
  · have hescapes : ∀ {a b}, Escapes a b → exported b = exported a := by
      rintro a b ⟨c, rest, ha, hc, hb⟩
      have hx : 'X'.isAlpha = true ∧ 'x'.isAlpha = true := by decide
      rcases hb with hb | hb
      · exact (exported_eq_iff_escapes hb hx.1 ha hc).2 ⟨c, rest, ha, hc, .inl hb⟩
      · exact (exported_eq_iff_escapes hb hx.2 ha hc).2 ⟨c, rest, ha, hc, .inr hb⟩
    rintro (rfl | ⟨c, d, rest, ha, hb, hc, hd, hupper⟩ | h | h)
    · rfl
    · rw [← String.toList_inj, toList_exported_of_letter ha hc, toList_exported_of_letter hb hd, hupper]
    · exact (hescapes h).symm
    · exact hescapes h

instance (a b : String) : Decidable (Alike a b) := decidable_of_iff _ (exported_eq_iff a b)

/-- The exported identifiers of distinct names are distinct exactly if no two of the names are alike. -/
theorem nodup_map_exported_iff {names : List String} (h : names.Nodup) :
    (names.map exported).Nodup ↔ ∀ a ∈ names, ∀ b ∈ names, Alike a b → a = b := by
  rw [List.nodup_map_iff_inj_on h]
  simp only [exported_eq_iff]

/-! ## Identifiers of operations -/

/-- What the package of a client declares before its operations. -/
def sharedIdents : List String := ["QueryAndFields", "CallMeta", "Executor", "Sdk", "NewSdk"]

/-- All identifiers that the package of a client with operations of some names declares. -/
def sdkIdents (names : List String) : List String :=
  sharedIdents ++ names.map queryVariable ++ names.map (fun n => exported n ++ "Request") ++
    names.map fun n => exported n ++ "Response"

/-- A text with a prefix is a text with an ending that the prefix does not run into exactly if both stand apart. -/
theorem append_eq_append_iff_of_apart {front ending : String}
    (h : ∀ l ∈ front.toList.tails, l <+: ending.toList → l = []) (x y : String) :
    front ++ x = y ++ ending ↔ ∃ w, y = front ++ w ∧ x = w ++ ending := by
  constructor
  · intro heq
    rw [← String.toList_inj, String.toList_append, String.toList_append, List.append_eq_append_iff] at heq
    rcases heq with ⟨l, hy, hx⟩ | ⟨l, hfront, hending⟩
    · refine ⟨String.ofList l, String.toList_inj.1 ?_, String.toList_inj.1 ?_⟩
      · rw [hy, String.toList_append, String.toList_ofList]
      · rw [hx, String.toList_append, String.toList_ofList]
    · -- what the prefix and the ending share is nothing
      have hl : l = [] := h l ((List.mem_tails _ _).2 ⟨y.toList, hfront.symm⟩) ⟨x.toList, hending.symm⟩
      subst hl
      refine ⟨"", String.toList_inj.1 ?_, String.toList_inj.1 ?_⟩
      · rw [String.append_empty, hfront, List.append_nil]
      · rw [String.empty_append, hending, List.nil_append]
  · rintro ⟨w, rfl, rfl⟩
    exact String.append_assoc.symm

/-- An operation's query variable is another's request or response exactly if the names say so. -/
theorem queryVariable_eq_iff (a b : String) :
    (queryVariable a = exported b ++ "Request" ↔ ∃ w, exported b = "Build" ++ w ∧ exported a = w ++ "Request") ∧
      (queryVariable a = exported b ++ "Response" ↔ ∃ w, exported b = "Build" ++ w ∧ exported a = w ++ "Response") :=
  ⟨append_eq_append_iff_of_apart (by decide) _ _, append_eq_append_iff_of_apart (by decide) _ _⟩

/-- No two operations have alike names, and the query variable of none is the request or the response of another. -/
structure OperationsApart (names : List String) : Prop where
  alike : ∀ a ∈ names, ∀ b ∈ names, Alike a b → a = b
  builders : ∀ a ∈ names, ∀ b ∈ names, ∀ w, exported b = "Build" ++ w →
    exported a ≠ w ++ "Request" ∧ exported a ≠ w ++ "Response"

/-- The identifiers of a client's package are distinct exactly if its operations are apart. -/
theorem sdkIdents_nodup_iff {names : List String} (h : names.Nodup) : (sdkIdents names).Nodup ↔ OperationsApart names := by
  have hvariables : (names.map queryVariable).Nodup ↔ ∀ a ∈ names, ∀ b ∈ names, Alike a b → a = b := by
    rw [List.nodup_map_iff_inj_on h]
    simp only [queryVariable, String.append_right_inj, exported_eq_iff]
  have hstructs : ∀ ending, (names.map fun n => exported n ++ ending).Nodup ↔
      ∀ a ∈ names, ∀ b ∈ names, Alike a b → a = b := by
    intro ending
    rw [List.nodup_map_iff_inj_on h]
    simp only [String.append_left_inj, exported_eq_iff]
  -- first letters tell the shared identifiers from query variables, and last letters tell them from the structures
  have hfirst : ∀ f ∈ sharedIdents, ∀ n, f ≠ queryVariable n := by
    intro f hf n heq
    have hhead : f.toList.head? = some 'B' := by
      rw [heq, queryVariable, String.toList_append]
      rfl
    exact (by decide : ∀ f ∈ sharedIdents, f.toList.head? ≠ some 'B') f hf hhead
  have hrequest : ∀ x : String, (x ++ "Request").toList.getLast? = some 't' := by
    intro x
    rw [String.toList_append, List.getLast?_append]
    rfl
  have hresponse : ∀ x : String, (x ++ "Response").toList.getLast? = some 'e' := by
    intro x
    rw [String.toList_append, List.getLast?_append]
    rfl
  have hlast : ∀ f ∈ sharedIdents, f.toList.getLast? ≠ some 't' ∧ f.toList.getLast? ≠ some 'e' := by decide
  simp only [sdkIdents, List.nodup_append, hvariables, hstructs, List.forall_mem_append, List.forall_mem_map]
  constructor
  · rintro ⟨⟨⟨-, halike, -⟩, -, -, hreq⟩, -, ⟨-, hresp⟩, -⟩
    refine ⟨halike, fun a ha b hb w hw => ⟨fun heq => ?_, fun heq => ?_⟩⟩
    · exact hreq a ha b hb ((queryVariable_eq_iff a b).1.2 ⟨w, hw, heq⟩)
    · exact hresp a ha b hb ((queryVariable_eq_iff a b).2.2 ⟨w, hw, heq⟩)
  · rintro ⟨halike, hbuilders⟩
    refine ⟨⟨⟨by decide, halike, fun f hf n _ => hfirst f hf n⟩, halike, ?_, ?_⟩, halike, ⟨?_, ?_⟩, ?_⟩
    · intro f hf n _ heq
      exact (hlast f hf).1 (heq ▸ hrequest _)
    · intro a ha b hb heq
      obtain ⟨w, hw, heq⟩ := (queryVariable_eq_iff a b).1.1 heq
      exact (hbuilders a ha b hb w hw).1 heq
    · intro f hf n _ heq
      exact (hlast f hf).2 (heq ▸ hresponse _)
    · intro a ha b hb heq
      obtain ⟨w, hw, heq⟩ := (queryVariable_eq_iff a b).2.1 heq
      exact (hbuilders a ha b hb w hw).2 heq
    · intro a _ b _ heq
      have hlast := hrequest (exported a)
      rw [heq, hresponse] at hlast
      cases hlast

/-- The fields and methods of a client with operations of some names. -/
def clientIdents (names : List String) : List String := ["Env", "Executor"] ++ names.map exported

/-- The methods of a client are distinct from each other and from its fields exactly if no names of operations are alike
and none is like a field. -/
theorem clientIdents_nodup_iff {names : List String} (h : names.Nodup) :
    (clientIdents names).Nodup ↔
      (∀ a ∈ names, ∀ b ∈ names, Alike a b → a = b) ∧ ∀ a ∈ names, ¬ Alike a "Env" ∧ ¬ Alike a "Executor" := by
  have hfields : ∀ a, (Alike a "Env" ↔ exported a = "Env") ∧ (Alike a "Executor" ↔ exported a = "Executor") := by
    intro a
    rw [← exported_eq_iff, ← exported_eq_iff]
    exact ⟨Iff.rfl, Iff.rfl⟩
  rw [clientIdents, List.nodup_append, nodup_map_exported_iff h]
  simp only [hfields, List.forall_mem_cons, List.forall_mem_map, List.not_mem_nil, false_implies, implies_true, and_true]
  constructor
  · rintro ⟨-, halike, henv, hexecutor⟩
    exact ⟨halike, fun a ha => ⟨fun heq => henv a ha heq.symm, fun heq => hexecutor a ha heq.symm⟩⟩
  · rintro ⟨halike, hnames⟩
    exact ⟨by decide, halike, fun a ha heq => (hnames a ha).1 heq.symm, fun a ha heq => (hnames a ha).2 heq.symm⟩

/-! ## Identifiers of types -/

/-- The identifiers of a type and of its values. -/
def typeIdents (n : String) (values : List String) : List String :=
  exported n :: values.map fun v => exported n ++ exported v

/-- The identifiers of one type are distinct exactly if its values are: none is empty, and none is like a later one. -/
theorem typeIdents_nodup_iff (n : String) (values : List String) :
    (typeIdents n values).Nodup ↔ "" ∉ values ∧ values.Pairwise fun v w => ¬ Alike v w := by
  have hself : ∀ v, exported n ++ exported v = exported n ↔ v = "" := by
    intro v
    rw [String.append_eq_left_iff, exported_eq_empty_iff]
  rw [typeIdents, List.nodup_cons, List.mem_map]
  refine and_congr (not_congr ?_) ?_
  · simp only [hself, exists_eq_right]
  · rw [List.Nodup, List.pairwise_map]
    simp only [ne_eq, String.append_right_inj, exported_eq_iff]

/-- The identifiers of two types have none in common exactly if the types are told apart, their values are, and each type
is from the values of the other. -/
theorem typeIdents_disjoint_iff (a b : String) (vs ws : List String) :
    List.Disjoint (typeIdents a vs) (typeIdents b ws) ↔
      ¬ Alike a b ∧ (∀ v ∈ vs, exported a ++ exported v ≠ exported b) ∧ (∀ w ∈ ws, exported b ++ exported w ≠ exported a) ∧
        ∀ v ∈ vs, ∀ w ∈ ws, exported a ++ exported v ≠ exported b ++ exported w := by
  rw [typeIdents, typeIdents, List.disjoint_iff_ne]
  simp only [List.forall_mem_cons, List.forall_mem_map, ← exported_eq_iff]
  constructor
  · rintro ⟨⟨hab, hws⟩, hvs⟩
    exact ⟨hab, fun v hv => (hvs v hv).1, fun w hw heq => hws w hw heq.symm, fun v hv => (hvs v hv).2⟩
  · rintro ⟨hab, hvs, hws, hvalues⟩
    exact ⟨⟨hab, fun w hw heq => hws w hw heq.symm⟩, fun v hv => ⟨hvs v hv, hvalues v hv⟩⟩

end SdkLoom.Go
