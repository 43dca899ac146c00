import SdkLoom.Proofs.DocumentNames
import SdkLoom.Proofs.GoIdentifiers
import SdkLoom.Proofs.GoReferences
import SdkLoom.Proofs.Occurrences
import SdkLoom.Target.Table

/-!
# When the package of types is imported

The file of the client imports the package of types if the qualifier `types.` occurs in the text of its methods. It should do
so exactly if a type of an argument or of a result is no scalar. But the text is searched for characters, not for types:
the variable of the query of an operation is followed by a dot too, so an operation whose name ends with `types` brings
it along, and so does a scalar whose spelling has the qualifier in it. Nothing else does (`types_import_iff`).
-/

namespace SdkLoom.Go

/-! ## Texts without dots -/

/-- A text has no dot. -/
def Dotless (s : String) : Prop := '.' ∉ s.toList

instance (s : String) : Decidable (Dotless s) := inferInstanceAs (Decidable ('.' ∉ s.toList))

theorem Dotless.append {a b : String} (ha : Dotless a) (hb : Dotless b) : Dotless (a ++ b) := by
  rw [Dotless, String.toList_append, List.mem_append]
  exact not_or.2 ⟨ha, hb⟩

theorem dotless_of_isName {s : String} (h : Sdl.isName s = true) : Dotless s := by
  intro hdot
  exact absurd (Sdl.isNameChar_of_isName h _ hdot) (by decide)

/-- A character that becomes another in upper case is that one, or its lower case. -/
theorem val_of_toUpper_eq {c d : Char} (h : c.toUpper = d) : c = d ∨ c.val = d.val - ('A'.val - 'a'.val) := by
  unfold Char.toUpper at h
  split at h
  next =>
    right
    rw [← h]
    exact (UInt32.add_sub_cancel _ _).symm
  next => exact .inl h

theorem toUpper_ne_dot {c : Char} (hc : c.isAlpha = true) : c.toUpper ≠ '.' := by
  intro h
  rcases val_of_toUpper_eq h with rfl | hval
  · exact absurd hc (by decide)
  · obtain rfl : c = 'N' := Char.ext hval
    exact absurd h (by decide)

theorem toUpper_ne_t (c : Char) : c.toUpper ≠ 't' := by
  intro h
  rcases val_of_toUpper_eq h with rfl | hval
  · exact absurd h (by decide)
  · obtain rfl : c = Char.ofNat 148 := Char.ext hval
    exact absurd h (by decide)

theorem Dotless.exported {s : String} (h : Dotless s) : Dotless (exported s) := by
  cases hs : s.toList with
  | nil =>
    have hempty : s = "" := String.toList_inj.1 hs
    rw [hempty]
    decide
  | cons c rest =>
    rw [Dotless, hs, List.mem_cons, not_or] at h
    cases hc : c.isAlpha with
    | true =>
      rw [Dotless, toList_exported_of_letter hs hc, List.mem_cons, not_or]
      exact ⟨(toUpper_ne_dot hc).symm, h.2⟩
    | false =>
      rw [Dotless, toList_exported_of_other hs hc, List.mem_cons, List.mem_cons, not_or, not_or]
      exact ⟨by decide, h⟩

theorem Dotless.param {s : String} (h : Dotless s) : Dotless (param s) := by
  unfold Go.param
  split
  · exact h.append (by decide)
  · exact h

theorem Dotless.stringLiteral {s : String} (h : Dotless s) : Dotless (stringLiteral s) := by
  have hescape : ∀ c, '.' ∈ escapeChar c → c = '.' := by
    intro c hc
    unfold escapeChar at hc
    split at hc <;> simp_all [eq_comm]
  intro hdot
  simp only [Go.stringLiteral, String.toList_ofList, List.cons_append, List.mem_cons, List.mem_append, List.mem_flatMap,
    List.not_mem_nil, or_false] at hdot
  rcases hdot with hdot | ⟨c, hc, hdot⟩ | hdot
  · exact absurd hdot (by decide)
  · exact h (hescape c hdot ▸ hc)
  · exact absurd hdot (by decide)

theorem Dotless.jsonTag {s : String} (h : Dotless s) : Dotless (jsonTag s) :=
  (Dotless.append (by decide) h).append (by decide)

/-! ## Texts with the qualifier -/

/-- Whether the qualifier of the package of types occurs in a text. -/
def mentions (s : String) : Bool := Text.contains s typesQualifier

theorem Dotless.mentions_eq {s : String} (h : Dotless s) : mentions s = false :=
  Text.contains_eq_false_of_not_mem (c := '.') (by decide) h

/-- No occurrence of the qualifier lies across a seam before which a text ends apart from it. -/
theorem mentions_append_of_endsApart {s : String} (h : Text.endsApart typesQualifier s = true) (t : String) :
    mentions (s ++ t) = (mentions s || mentions t) := Text.contains_append_of_endsApart h t

theorem mentions_append_of_startsApart {t : String} (h : Text.startsApart typesQualifier t = true) (s : String) :
    mentions (s ++ t) = (mentions s || mentions t) := Text.contains_append_of_startsApart h s

theorem mentions_join {ts : List String} (h : ∀ t ∈ ts, Text.startsApart typesQualifier t = true) :
    mentions (String.join ts) = ts.any mentions := Text.contains_join (by decide) h

theorem mentions_intercalate (ts : List String) : mentions (", ".intercalate ts) = ts.any mentions :=
  Text.contains_intercalate (by decide) (by decide) (by decide) (by decide) ts

/-- Texts that stand apart from the qualifier, and do not mention it, may enclose another. -/
theorem mentions_enclosed {a b : String} (ha : Text.endsApart typesQualifier a = true)
    (hb : Text.startsApart typesQualifier b = true) (hna : mentions a = false) (hnb : mentions b = false) (s : String) :
    mentions (a ++ s ++ b) = mentions s := by
  rw [mentions_append_of_startsApart hb, mentions_append_of_endsApart ha, hna, hnb, Bool.false_or, Bool.or_false]

/-- Padding and the space after it stand apart from the qualifier. -/
theorem startsApart_padding (n : Nat) :
    Text.startsApart typesQualifier (String.ofList (List.replicate n ' ') ++ " ") = true := by
  cases n with
  | zero => decide
  | succ n =>
    refine Text.startsApart_append ?_ " "
    rw [Text.startsApart, String.toList_ofList, List.replicate_succ, List.head?_cons, Option.any_some]
    decide

theorem mentions_padCell (cell : String) (width : Nat) : mentions (padCell cell width ++ " ") = mentions cell := by
  have hspaces : Dotless (String.ofList (List.replicate (width - cell.length) ' ') ++ " ") := by
    refine Dotless.append ?_ (by decide)
    rw [Dotless, String.toList_ofList, List.mem_replicate]
    exact fun h => absurd h.2 (by decide)
  rw [padCell, String.append_assoc, mentions_append_of_startsApart (startsApart_padding _), hspaces.mentions_eq,
    Bool.or_false]

theorem mentions_rowText (rows : List (List String)) (k : Nat) (row : List String) :
    mentions (rowText rows k row) = row.any mentions := by
  fun_induction rowText rows k row with
  | case1 => decide
  | case2 k cell => simp
  | case3 k cell rest hrest ih =>
    have hends : Text.endsApart typesQualifier (padCell cell (columnWidth rows k) ++ " ") = true :=
      Text.endsApart_append (by decide) _
    rw [mentions_append_of_endsApart hends, mentions_padCell, ih, List.any_cons]

/-- Aligned rows mention the package of types if a cell does. -/
theorem mentions_columns (rows : List (List String)) : mentions (columns rows) = rows.any fun row => row.any mentions := by
  rw [columns, mentions_join, List.any_map]
  · refine congrArg rows.any (funext fun row => ?_)
    rw [Function.comp_apply, mentions_enclosed (by decide) (by decide) (by decide) (by decide), mentions_rowText]
  · intro t ht
    obtain ⟨row, -, rfl⟩ := List.mem_map.1 ht
    exact Text.startsApart_append (Text.startsApart_append (by decide) _) _

/-! ## The declarations of an operation -/

/-- A structure mentions the package of types exactly if the type of a field does. -/
theorem mentions_structText_iff {ident : String} {fs : List StructField} (hident : Dotless ident)
    (hfields : ∀ f ∈ fs, Dotless f.ident ∧ Dotless f.json) :
    mentions (structText ident fs) = true ↔ ∃ f ∈ fs, mentions f.type.text = true := by
  have hhead : Dotless ("type " ++ ident ++ " struct \x7b\n") := (Dotless.append (by decide) hident).append (by decide)
  rw [structText, mentions_enclosed (Text.endsApart_append (by decide) _) (by decide) hhead.mentions_eq (by decide),
    fieldRows, mentions_columns, List.any_map, List.any_eq_true]
  refine exists_congr fun f => and_congr_right fun hf => ?_
  have hname := (hfields f hf).1.mentions_eq
  have htag := (hfields f hf).2.jsonTag.mentions_eq
  simp [hname, htag]

/-- A name is a longer one with some ending exactly if the ending comes after its first character. -/
theorem exists_stem_iff {name : String} {c : Char} {rest : List Char} (h : name.toList = c :: rest) (ending : String) :
    (∃ stem, stem ≠ "" ∧ name = stem ++ ending) ↔ ending.toList <:+ rest := by
  constructor
  · rintro ⟨stem, hstem, rfl⟩
    obtain ⟨d, stem', hd⟩ := List.exists_cons_of_ne_nil (mt String.toList_eq_nil_iff.1 hstem)
    rw [String.toList_append, hd, List.cons_append] at h
    exact ⟨stem', (List.cons.inj h).2⟩
  · rintro ⟨stem, rfl⟩
    refine ⟨String.ofList (c :: stem), by simp, String.toList_inj.1 ?_⟩
    rw [h, String.toList_append, String.toList_ofList, List.cons_append]

/-- The variable of a query ends with `types` exactly if the name of its operation does and is longer. -/
theorem types_suffix_queryVariable_iff (name : String) :
    "types".toList <:+ (queryVariable name).toList ↔ ∃ stem, stem ≠ "" ∧ name = stem ++ "types" := by
  have hbuild : "types".toList <:+ (queryVariable name).toList ↔ "types".toList <:+ (exported name).toList := by
    rw [queryVariable, String.toList_append]
    simp [List.suffix_cons_iff]
  rw [hbuild]
  cases hname : name.toList with
  | nil =>
    have hempty : name = "" := String.toList_inj.1 hname
    rw [hempty]
    refine iff_of_false (by decide) ?_
    rintro ⟨stem, -, heq⟩
    exact absurd (String.append_eq_empty_iff.1 heq.symm).2 (by decide)
  | cons c rest =>
    rw [exists_stem_iff hname]
    cases hc : c.isAlpha with
    | true =>
      rw [toList_exported_of_letter hname hc, List.suffix_cons_iff, or_iff_right]
      intro heq
      exact toUpper_ne_t c (List.cons.inj heq).1.symm
    | false =>
      rw [toList_exported_of_other hname hc, List.suffix_cons_iff, List.suffix_cons_iff, or_iff_right, or_iff_right]
      · intro heq
        rw [← (List.cons.inj heq).1] at hc
        exact absurd hc (by decide)
      · intro heq
        exact absurd (List.cons.inj heq).1 (by decide)

namespace MethodDecl

/-- The names that are written for a method have no dots. -/
structure Dotless (m : MethodDecl) : Prop where
  name : Go.Dotless m.name
  args : ∀ a ∈ m.args, Go.Dotless a.name
  model : Go.Dotless m.plan.model
  key : ∀ k ∈ m.plan.key, Go.Dotless k
  filter : ∀ k ∈ m.plan.filter, Go.Dotless k

theorem Dotless.ident {m : MethodDecl} (h : m.Dotless) : Go.Dotless m.ident := h.name.exported

theorem Dotless.requestIdent {m : MethodDecl} (h : m.Dotless) : Go.Dotless m.requestIdent := h.ident.append (by decide)

theorem Dotless.responseIdent {m : MethodDecl} (h : m.Dotless) : Go.Dotless m.responseIdent := h.ident.append (by decide)

/-- The text of the method before the name of the query's variable. -/
def opening (m : MethodDecl) : String :=
  "func (s *Sdk) " ++ m.ident ++ "(" ++ String.intercalate ", " m.params ++ ") (" ++ m.result.text ++ ", error) \x7b\n" ++
    "\trequest := " ++ m.requestIdent ++ "\x7b" ++ m.assignments ++ "\x7d\n" ++
    "\tmeta := " ++ m.metaText ++ "\n" ++
    "\tvar response " ++ m.responseIdent ++ "\n" ++
    "\terr := s.Executor." ++ m.executorCall ++ "(ctx, "

/-- The text of the method that renders the query. -/
def rendering (m : MethodDecl) : String :=
  queryVariable m.name ++ ".Render(selections...), request, meta, &response)\n"

/-- The text of the method after the call. -/
def closing (m : MethodDecl) : String := "\treturn response." ++ m.ident ++ ", err\n" ++ "\x7d\n"

theorem functionText_eq (m : MethodDecl) : m.functionText = m.opening ++ m.rendering ++ m.closing := by
  unfold functionText opening rendering closing
  simp only [String.append_assoc]

theorem mentions_assignments {m : MethodDecl} (h : m.Dotless) : mentions m.assignments = false := by
  rw [assignments, mentions_intercalate, List.any_map, List.any_eq_false]
  intro a ha
  have hname := h.args a ha
  rw [Function.comp_apply, ((hname.exported.append (b := ": ") (by decide)).append hname.param).mentions_eq]
  exact Bool.false_ne_true

theorem mentions_metaText {m : MethodDecl} (h : m.Dotless) : mentions m.metaText = false := by
  have htag : Go.Dotless m.plan.style.tag := by cases m.plan.style <;> decide
  rw [metaText, mentions_enclosed (by decide) (by decide) (by decide) (by decide), mentions_intercalate, List.any_eq_false]
  intro item hitem
  rw [Bool.not_eq_true]
  refine Dotless.mentions_eq ?_
  simp only [List.mem_append, List.mem_cons, List.not_mem_nil, or_false] at hitem
  rcases hitem with ((rfl | rfl | rfl) | hkey) | hfilter
  · exact Dotless.append (by decide) h.name.stringLiteral
  · exact Dotless.append (by decide) htag.stringLiteral
  · exact Dotless.append (by decide) h.model.stringLiteral
  · cases hk : m.plan.key with
    | none => simp [hk] at hkey
    | some k =>
      have hdotless := h.key k hk
      simp only [hk, List.mem_cons, List.not_mem_nil, or_false] at hkey
      rcases hkey with rfl | rfl
      · exact Dotless.append (by decide) hdotless.stringLiteral
      · exact Dotless.append (by decide) hdotless.param
  · cases hk : m.plan.filter with
    | none => simp [hk] at hfilter
    | some k =>
      simp only [hk, List.mem_singleton] at hfilter
      rw [hfilter]
      exact Dotless.append (by decide) (h.filter k hk).stringLiteral

theorem mentions_params_iff {m : MethodDecl} (h : m.Dotless) :
    mentions (", ".intercalate m.params) = true ↔ ∃ a ∈ m.args, mentions a.type.text = true := by
  have hctx : mentions "ctx context.Context" = false := by decide
  have hselections : mentions "selections ...string" = false := by decide
  rw [mentions_intercalate, params]
  simp only [List.any_append, List.any_cons, List.any_nil, List.any_map, hctx, hselections, Bool.false_or, Bool.or_false,
    List.any_eq_true]
  refine exists_congr fun a => and_congr_right fun ha => ?_
  have hname : Go.Dotless (param a.name ++ " ") := (h.args a ha).param.append (by decide)
  rw [Function.comp_apply, mentions_append_of_endsApart (Text.endsApart_append (by decide) _), hname.mentions_eq,
    Bool.false_or]

theorem mentions_opening_iff {m : MethodDecl} (h : m.Dotless) :
    mentions m.opening = true ↔ (∃ a ∈ m.args, mentions a.type.text = true) ∨ mentions m.result.text = true := by
  have hcall : mentions m.executorCall = false := by
    unfold executorCall
    split <;> decide
  have hexecutor : mentions "\terr := s.Executor." = false := by decide
  unfold opening
  -- every seam has a piece of fixed text on one side, which stands apart from the qualifier
  simp (disch := first | decide | (refine Text.endsApart_append ?_ _; decide)) only [mentions_append_of_startsApart,
    mentions_append_of_endsApart, Dotless.mentions_eq, h.ident.mentions_eq, h.requestIdent.mentions_eq,
    h.responseIdent.mentions_eq, hcall, hexecutor, mentions_assignments h, mentions_metaText h, Bool.or_false, Bool.false_or]
  rw [Bool.or_eq_true, mentions_params_iff h]

theorem mentions_closing {m : MethodDecl} (h : m.Dotless) : mentions m.closing = false := by
  have hreturn : mentions "\treturn response." = false := by decide
  unfold closing
  simp (disch := first | decide | (refine Text.endsApart_append ?_ _; decide)) only [mentions_append_of_startsApart,
    mentions_append_of_endsApart, Dotless.mentions_eq, h.ident.mentions_eq, hreturn, Bool.or_false]

/-- Where the query is rendered the package of types is mentioned exactly if the name of the operation ends with `types` and
is longer. -/
theorem mentions_rendering_iff {m : MethodDecl} (h : m.Dotless) :
    mentions m.rendering = true ↔ ∃ stem, stem ≠ "" ∧ m.name = stem ++ "types" := by
  have hvariable : Go.Dotless (queryVariable m.name) := Dotless.append (by decide) h.ident
  have hrest : mentions "Render(selections...), request, meta, &response)\n" = false := by decide
  have hsplit : m.rendering.toList =
      (queryVariable m.name).toList ++ '.' :: "Render(selections...), request, meta, &response)\n".toList := by
    rw [rendering, String.toList_append]
    rfl
  have hqualifier : typesQualifier.toList = "types".toList ++ ['.'] := rfl
  rw [mentions, Text.contains_iff, hsplit, hqualifier, Text.infix_append_cons_iff (by decide), ← hqualifier,
    ← Text.contains_iff, ← Text.contains_iff, types_suffix_queryVariable_iff]
  have hquiet := hvariable.mentions_eq
  rw [mentions] at hquiet hrest
  simp [hquiet, hrest]

/-- The declarations of an operation mention the package of types exactly if a type does, or if the name of the operation
ends with `types` and is longer. -/
theorem mentions_text_iff {m : MethodDecl} (h : m.Dotless) :
    mentions m.text = true ↔
      (∃ a ∈ m.args, mentions a.type.text = true) ∨ mentions m.result.text = true ∨
        ∃ stem, stem ≠ "" ∧ m.name = stem ++ "types" := by
  have hrequest : mentions (structText m.requestIdent m.requestFields) = true ↔ ∃ a ∈ m.args, mentions a.type.text = true := by
    rw [mentions_structText_iff h.requestIdent]
    · simp [requestFields]
    · intro f hf
      obtain ⟨a, ha, rfl⟩ := List.mem_map.1 hf
      exact ⟨(h.args a ha).exported, h.args a ha⟩
  have hresponse : mentions (structText m.responseIdent m.responseFields) = true ↔ mentions m.result.text = true := by
    rw [mentions_structText_iff h.responseIdent]
    · simp [responseFields]
    · intro f hf
      rw [List.mem_singleton.1 hf]
      exact ⟨h.ident, h.name⟩
  have hfunction : mentions m.functionText = true ↔ (∃ a ∈ m.args, mentions a.type.text = true) ∨
      mentions m.result.text = true ∨ ∃ stem, stem ≠ "" ∧ m.name = stem ++ "types" := by
    have hstarts : Text.startsApart typesQualifier m.closing = true := by
      unfold closing
      exact Text.startsApart_append (Text.startsApart_append (Text.startsApart_append (by decide) _) _) _
    have hends : Text.endsApart typesQualifier m.opening = true := by
      unfold opening
      exact Text.endsApart_append (by decide) _
    rw [functionText_eq, mentions_append_of_startsApart hstarts, mentions_append_of_endsApart hends, mentions_closing h,
      Bool.or_false, Bool.or_eq_true, mentions_opening_iff h, mentions_rendering_iff h, or_assoc]
  have hblank : Text.startsApart typesQualifier "\n" = true ∧ Text.endsApart typesQualifier "\n" = true := by decide
  have hnewline : mentions "\n" = false := by decide
  unfold text
  rw [mentions_append_of_endsApart (Text.endsApart_append hblank.2 _), mentions_append_of_startsApart hblank.1,
    mentions_append_of_endsApart (Text.endsApart_append hblank.2 _), mentions_append_of_startsApart hblank.1, hnewline]
  simp only [Bool.or_false, Bool.or_eq_true, hrequest, hresponse, hfunction]
  exact or_iff_right_of_imp fun hstruct => hstruct.imp_right .inl

end MethodDecl

/-! ## Operations of a document -/

/-- What follows the front of a text is part of the text. -/
theorem eq_append_of_afterHead {front cs rest : List Char} (h : Text.afterHead front cs = some rest) : cs = front ++ rest := by
  induction front generalizing cs with
  | nil =>
    cases h
    rfl
  | cons c front ih =>
    cases cs with
    | nil => cases h
    | cons d cs =>
      rw [Text.afterHead] at h
      split at h
      next hcd => rw [hcd, ih h, List.cons_append]
      next => cases h

theorem Dotless.pageItem {name : String} (h : Dotless name) : Dotless (CallPlan.pageItem name) := by
  unfold CallPlan.pageItem
  split
  next item hitem =>
    split
    · exact h
    · obtain ⟨cs, hcs, rfl⟩ := Option.map_eq_some_iff.1 hitem
      intro hdot
      rw [String.toList_ofList, List.mem_reverse] at hdot
      refine h (List.mem_reverse.1 ?_)
      rw [eq_append_of_afterHead hcs]
      exact List.mem_append_right _ hdot
  next => exact h

theorem dotless_model {m : Method} (h : Dotless m.returnType.gqlType) : Dotless (CallPlan.ofMethod m).model := by
  unfold CallPlan.ofMethod
  dsimp only
  split
  · exact h
  · exact h.pageItem
  · exact h

/-- What a plan looks things up by is an argument. -/
theorem mem_keys_of_hint {m : Method} {k : String}
    (h : (CallPlan.ofMethod m).key = some k ∨ (CallPlan.ofMethod m).filter = some k) : k ∈ OrderedMap.keys m.args := by
  rcases CallPlan.hints_ofMethod m with ⟨hkey, hfilter⟩ | ⟨n, hn, ⟨hkey, hfilter⟩ | ⟨-, hkey, hfilter⟩⟩
  all_goals
    rw [hkey, hfilter] at h
    rcases h with ⟨⟨⟩⟩ | ⟨⟨⟩⟩ <;> exact hn

/-- Names of GraphQL have no dots, so there are none in the names that are written for an operation. -/
theorem dotless_ofOperation (ps : Primitives) {op : Operation} (h : op.method.Named) :
    (MethodDecl.ofOperation ps op).Dotless := by
  have harg : ∀ n ∈ OrderedMap.keys op.method.args, Dotless n := fun n hn => dotless_of_isName (h.args n hn)
  refine ⟨dotless_of_isName h.name, ?_, dotless_model (dotless_of_isName h.result), ?_, ?_⟩
  · intro a ha
    obtain ⟨e, he, rfl⟩ := List.mem_map.1 ha
    exact harg e.1 (List.mem_map_of_mem he)
  · exact fun k hk => harg k (mem_keys_of_hint (.inl hk))
  · exact fun k hk => harg k (mem_keys_of_hint (.inr hk))

/-- The type of a descriptor mentions the package of types exactly if it is no scalar, or if the spelling of the scalar
does. -/
theorem mentions_ofDescriptor_iff (ps : Primitives) (d : Descriptor) :
    mentions (TypeExpr.ofDescriptor ps typesQualifier none d).text = true ↔
      d.isPrimitive = false ∨ d.isPrimitive = true ∧ mentions (ps.get d.gqlType) = true := by
  have helement : mentions (TypeExpr.element ps typesQualifier d).text = true ↔
      d.isPrimitive = false ∨ d.isPrimitive = true ∧ mentions (ps.get d.gqlType) = true := by
    cases hprim : d.isPrimitive with
    | true => simp [TypeExpr.element, hprim, TypeExpr.text]
    | false =>
      refine iff_of_true ?_ (.inl rfl)
      rw [mentions, Text.contains_iff, TypeExpr.element, hprim, if_neg Bool.false_ne_true, TypeExpr.text, String.toList_append]
      exact (List.prefix_append _ _).isInfix
  unfold TypeExpr.ofDescriptor
  split
  · have hbrackets : mentions "[]" = false := by decide
    rw [TypeExpr.text, mentions_append_of_endsApart (by decide), hbrackets, Bool.false_or]
    exact helement
  · exact helement

/-- The methods mention the package of types exactly if those of an operation do. -/
theorem Package.mentions_methodsText (p : Package) :
    mentions p.methodsText = true ↔ ∃ m ∈ p.methods, mentions m.text = true := by
  have hstarts : ∀ t ∈ p.methods.map fun m => "\n" ++ m.text, Text.startsApart typesQualifier t = true := by
    intro t ht
    obtain ⟨m, -, rfl⟩ := List.mem_map.1 ht
    exact Text.startsApart_append (by decide) _
  have hnewline : mentions "\n" = false := by decide
  rw [methodsText, mentions_join hstarts, List.any_map, List.any_eq_true]
  refine exists_congr fun m => and_congr_right fun _ => ?_
  rw [Function.comp_apply, mentions_append_of_endsApart (by decide), hnewline, Bool.false_or]

/-! ## Imports -/

/-- The text of an import declaration: the groups of paths that it imports, with an empty line between two groups. -/
def importDecl (groups : List (List String)) : String :=
  "import (\n" ++
    "\n".intercalate (groups.map fun paths => String.join (paths.map fun p => "\t" ++ stringLiteral p ++ "\n")) ++ ")\n\n"

/-- A file of the client imports these groups of paths and nothing else. -/
def Imports (file : String) (groups : List (List String)) : Prop :=
  ∃ rest, file = Package.header ++ "package sdk\n\n" ++ importDecl groups ++ rest

/-- The imports of the client with the package of types. -/
def withTypes (module : String) : List (List String) := [["context"], [Package.typesImport module]]

/-- The imports of the client without the package of types. -/
def withoutTypes : List (List String) := [["context"]]

theorem importDecl_path (path : String) :
    importDecl [["context"], [path]] =
      "import (\n\t\"context\"\n" ++ ("\n\t" ++ stringLiteral path ++ "\n" ++ ")\n\n") := by
  have hcontext : stringLiteral "context" = "\"context\"" := by decide
  simp [importDecl, hcontext, ← String.toList_inj]

theorem importDecl_withoutTypes : importDecl withoutTypes = "import (\n\t\"context\"\n" ++ ")\n\n" := by decide

theorem Package.imports_eq (p : Package) (module : String) :
    p.imports module = importDecl (if mentions p.methodsText then withTypes module else withoutTypes) := by
  unfold imports
  by_cases h : mentions p.methodsText = true
  · rw [if_pos h, withTypes, importDecl_path, String.append_assoc]
    exact congrArg _ (congrArg (· ++ ")\n\n") (if_pos h))
  · rw [if_neg h, importDecl_withoutTypes, String.append_assoc]
    exact congrArg _ (congrArg (· ++ ")\n\n") (if_neg h))

theorem not_imports_both {file path : String} (h : Imports file [["context"], [path]]) : ¬ Imports file withoutTypes := by
  rintro ⟨rest', h'⟩
  obtain ⟨rest, rfl⟩ := h
  rw [importDecl_path, importDecl_withoutTypes, ← String.toList_inj] at h'
  simp only [String.toList_append, List.append_assoc, List.append_cancel_left_eq] at h'
  cases h'

/-- The file of the client imports the package of types exactly if the methods mention it. -/
theorem Package.imports_clientFile (p : Package) (module : String) :
    (Imports (p.clientFile module) (withTypes module) ↔ mentions p.methodsText = true) ∧
      (Imports (p.clientFile module) withoutTypes ↔ ¬ mentions p.methodsText = true) := by
  have himports : Imports (p.clientFile module) (if mentions p.methodsText then withTypes module else withoutTypes) := by
    refine ⟨clientPreamble ++ p.methodsText, ?_⟩
    rw [clientFile, imports_eq, String.append_assoc]
  cases hmentions : mentions p.methodsText with
  | true =>
    rw [hmentions, if_pos rfl] at himports
    exact ⟨iff_of_true himports rfl, iff_of_false (not_imports_both himports) (by simp)⟩
  | false =>
    rw [hmentions, if_neg Bool.false_ne_true] at himports
    exact ⟨iff_of_false (fun h => not_imports_both h himports) (by simp), iff_of_true himports (by simp)⟩

/-! ## The import of a document's client -/

/-- The types of the arguments and of the result of an operation. -/
def operandTypes (op : Operation) : List Descriptor := OrderedMap.values op.method.args ++ [op.method.returnType]

/-- A type of an argument or of a result is no scalar. -/
def UsesTypes (d : Definition) : Prop := ∃ op ∈ d.catalog.operations, ∃ ty ∈ operandTypes op, ty.isPrimitive = false

instance (d : Definition) : Decidable (UsesTypes d) :=
  inferInstanceAs (Decidable (∃ op ∈ d.catalog.operations, ∃ ty ∈ operandTypes op, ty.isPrimitive = false))

/-- The name of an operation ends with `types` and is longer. -/
def NamesTypes (d : Definition) : Prop :=
  ∃ op ∈ d.catalog.operations, ∃ stem, stem ≠ "" ∧ op.method.name = stem ++ "types"

/-- The qualifier of the package of types occurs in the spelling of a scalar that an argument or a result has. -/
def SpellsTypes (d : Definition) (ps : Primitives) : Prop :=
  ∃ op ∈ d.catalog.operations, ∃ ty ∈ operandTypes op, ty.isPrimitive = true ∧
    Text.contains (ps.get ty.gqlType) typesQualifier = true

theorem mentions_ofOperation_iff (ps : Primitives) {op : Operation} (h : op.method.Named) :
    mentions (MethodDecl.ofOperation ps op).text = true ↔
      (∃ ty ∈ operandTypes op, ty.isPrimitive = false ∨ ty.isPrimitive = true ∧ mentions (ps.get ty.gqlType) = true) ∨
        ∃ stem, stem ≠ "" ∧ op.method.name = stem ++ "types" := by
  rw [MethodDecl.mentions_text_iff (dotless_ofOperation ps h), ← or_assoc]
  refine or_congr ?_ Iff.rfl
  simp only [MethodDecl.ofOperation, operandTypes, OrderedMap.values, List.mem_append, List.mem_map, List.mem_singleton,
    or_and_right, exists_or, exists_eq_left]
  refine or_congr ?_ (mentions_ofDescriptor_iff ps _)
  constructor
  · rintro ⟨_, ⟨e, he, rfl⟩, hmentions⟩
    exact ⟨e.2, ⟨e, he, rfl⟩, (mentions_ofDescriptor_iff ps _).1 hmentions⟩
  · rintro ⟨_, ⟨e, he, rfl⟩, hty⟩
    exact ⟨_, ⟨e, he, rfl⟩, (mentions_ofDescriptor_iff ps _).2 hty⟩

/-- The types of an operation's arguments and of its result are written for its method. -/
theorem mem_writtenTypes_of_mem {ps : Primitives} {op : Operation} {ty : Descriptor} (h : ty ∈ operandTypes op) :
    TypeExpr.ofDescriptor ps typesQualifier none ty ∈ (MethodDecl.ofOperation ps op).writtenTypes := by
  rcases List.mem_append.1 h with h | h
  · obtain ⟨e, he, rfl⟩ := List.mem_map.1 h
    refine List.mem_append_left _ (List.mem_append_right _ (List.mem_map.2 ?_))
    exact ⟨_, List.mem_map_of_mem he, rfl⟩
  · rw [List.mem_singleton.1 h]
    exact List.mem_append_right _ List.mem_cons_self

theorem usesTypes_iff (d : Definition) (ps : Primitives) :
    UsesTypes d ↔ ∃ m ∈ (Package.ofDefinition d ps).methods, ∃ e ∈ m.writtenTypes, ∃ ident,
      e.target? = some (typesQualifier, ident) := by
  constructor
  · rintro ⟨op, hop, ty, hty, hprim⟩
    refine ⟨_, List.mem_map_of_mem hop, _, mem_writtenTypes_of_mem hty, exported ty.gqlType, ?_⟩
    rw [TypeExpr.target?_ofDescriptor, hprim, if_neg Bool.false_ne_true]
  · rintro ⟨m, hm, e, he, ident, htarget⟩
    obtain ⟨op, hop, rfl⟩ := List.mem_map.1 hm
    obtain ⟨ty, hty, rfl⟩ := MethodDecl.mem_writtenTypes_ofOperation he
    refine ⟨op, hop, ty, hty, ?_⟩
    rw [TypeExpr.target?_ofDescriptor] at htarget
    cases hprim : ty.isPrimitive with
    | true => simp [hprim] at htarget
    | false => rfl

section Document

variable {text : String} {s : Schema} {ignored : IgnoreList} {d : Definition} (hs : Schema.ofSdl text = .ok s)
  (hd : Definition.ofSchema s ignored = .ok d)

include hs hd

/-- The methods of a document's client mention the package of types for three reasons. -/
theorem mentions_methodsText_iff (ps : Primitives) :
    mentions (Package.ofDefinition d ps).methodsText = true ↔ UsesTypes d ∨ NamesTypes d ∨ SpellsTypes d ps := by
  rw [Package.mentions_methodsText]
  constructor
  · rintro ⟨m, hm, hmentions⟩
    obtain ⟨op, hop, rfl⟩ := List.mem_map.1 hm
    rw [mentions_ofOperation_iff ps (Definition.named_of_ofSdl hs hd hop)] at hmentions
    rcases hmentions with ⟨ty, hty, hprim | hspelled⟩ | hname
    · exact .inl ⟨op, hop, ty, hty, hprim⟩
    · exact .inr (.inr ⟨op, hop, ty, hty, hspelled⟩)
    · exact .inr (.inl ⟨op, hop, hname⟩)
  · have hmethod : ∀ op ∈ d.catalog.operations, ((∃ ty ∈ operandTypes op, ty.isPrimitive = false ∨
        ty.isPrimitive = true ∧ mentions (ps.get ty.gqlType) = true) ∨
          ∃ stem, stem ≠ "" ∧ op.method.name = stem ++ "types") →
        ∃ m ∈ (Package.ofDefinition d ps).methods, mentions m.text = true := by
      intro op hop h
      exact ⟨_, List.mem_map_of_mem hop, (mentions_ofOperation_iff ps (Definition.named_of_ofSdl hs hd hop)).2 h⟩
    rintro (⟨op, hop, ty, hty, hprim⟩ | ⟨op, hop, hname⟩ | ⟨op, hop, ty, hty, hspelled⟩)
    · exact hmethod op hop (.inl ⟨ty, hty, .inl hprim⟩)
    · exact hmethod op hop (.inr hname)
    · exact hmethod op hop (.inl ⟨ty, hty, .inr hspelled⟩)

/-- The file of the client of a document imports the package of types exactly if a type of an argument or of a result is no
scalar, or the name of an operation ends with `types` and is longer, or the spelling of a scalar has the qualifier in it. A
type that is no scalar is what the methods refer to by the qualifier. -/
theorem types_import_iff (ps : Primitives) (module : String) :
    (Imports ((Package.ofDefinition d ps).clientFile module) (withTypes module) ↔
      UsesTypes d ∨ NamesTypes d ∨ SpellsTypes d ps) ∧
    (Imports ((Package.ofDefinition d ps).clientFile module) withoutTypes ↔
      ¬ (UsesTypes d ∨ NamesTypes d ∨ SpellsTypes d ps)) ∧
    (UsesTypes d ↔ ∃ m ∈ (Package.ofDefinition d ps).methods, ∃ e ∈ m.writtenTypes, ∃ ident,
      e.target? = some (typesQualifier, ident)) := by
  obtain ⟨hwith, hwithout⟩ := (Package.ofDefinition d ps).imports_clientFile module
  rw [mentions_methodsText_iff hs hd] at hwith hwithout
  exact ⟨hwith, hwithout, usesTypes_iff d ps⟩

end Document

/-- Whether a text has a definition that passes a test. -/
def definesWith (test : Definition → Bool) (text : String) : Bool :=
  (Schema.ofSdl text).toOption.any fun s => (Definition.ofSchema s IgnoreList.builtin).toOption.any test

theorem exists_of_definesWith {test : Definition → Bool} {text : String} (h : definesWith test text = true) :
    ∃ s d, Schema.ofSdl text = .ok s ∧ Definition.ofSchema s IgnoreList.builtin = .ok d ∧ test d = true := by
  have hsome : ∀ {ε α : Type} {x : Except ε α} {p : α → Bool}, x.toOption.any p = true → ∃ a, x = .ok a ∧ p a = true := by
    intro ε α x p hx
    cases x with
    | error e => cases hx
    | ok a => exact ⟨a, rfl, hx⟩
  obtain ⟨s, hs, h⟩ := hsome h
  obtain ⟨d, hd, h⟩ := hsome h
  exact ⟨s, d, hs, hd, h⟩

/-- A document with a type beside the scalars. -/
def shapesText : String := "type Query \x7b shape(id: ID!): Shape \x7d type Shape \x7b id: ID! \x7d"

/-- The shape is a type of the package, so the client of the shapes imports it. -/
theorem shapes_import_types :
    ∃ s d, Schema.ofSdl shapesText = .ok s ∧ Definition.ofSchema s IgnoreList.builtin = .ok d ∧ UsesTypes d ∧
      Imports ((Package.ofDefinition d Target.goTarget.primitives).clientFile "drawing") (withTypes "drawing") ∧
      ∃ m ∈ (Package.ofDefinition d Target.goTarget.primitives).methods, ∃ e ∈ m.writtenTypes, ∃ ident,
        e.target? = some (typesQualifier, ident) := by
  have htest : definesWith (fun d => decide (UsesTypes d)) shapesText = true := by decide +kernel
  obtain ⟨s, d, hs, hd, htest⟩ := exists_of_definesWith htest
  have huses : UsesTypes d := of_decide_eq_true htest
  obtain ⟨himports, -, htypes⟩ := types_import_iff hs hd Target.goTarget.primitives "drawing"
  exact ⟨s, d, hs, hd, huses, himports.2 (.inl huses), htypes.1 huses⟩

/-- A document with one operation, whose name ends with `types`. -/
def subtypesText : String := "type Query \x7b subtypes: Int \x7d"

/-- The client imports the package of types, though the only type that its operation has is a scalar. -/
theorem subtypes_import_unused :
    ∃ s d, Schema.ofSdl subtypesText = .ok s ∧ Definition.ofSchema s IgnoreList.builtin = .ok d ∧ ¬ UsesTypes d ∧
      Imports ((Package.ofDefinition d Target.goTarget.primitives).clientFile "sdk") (withTypes "sdk") := by
  have htest : definesWith (fun d => decide (¬ UsesTypes d ∧ ∃ op ∈ d.catalog.operations, op.method.name = "subtypes"))
      subtypesText = true := by decide +kernel
  obtain ⟨s, d, hs, hd, htest⟩ := exists_of_definesWith htest
  obtain ⟨hunused, op, hop, hname⟩ := of_decide_eq_true htest
  have hmentions := (mentions_methodsText_iff hs hd Target.goTarget.primitives).2
    (.inr (.inl ⟨op, hop, "sub", by decide, by rw [hname]; rfl⟩))
  exact ⟨s, d, hs, hd, hunused, (Package.imports_clientFile _ _).1.2 hmentions⟩

end SdkLoom.Go
