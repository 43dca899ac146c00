import SdkLoom.Proofs.Documents

/-!
# Which documents have a schema, and which one

A document has a schema exactly if every name that it refers to is defined in it or built in; otherwise the first name that
is neither is reported (`failure?_ofDocument`). The schema has the definitions of the document one by one, with all that they
say (`Sdl.TypeDef.Matches`), then the built-in scalars that are not defined; its roots are those of the last schema
definition, or the types of the usual names. Extensions and directives do not count.
-/

namespace SdkLoom

/-! ## Failures -/

/-- The error of a computation that fails. -/
def failure? {ε α : Type} : Except ε α → Option ε
  | .error e => some e
  | .ok _ => none

section Failures

variable {ε α β : Type}

theorem failure?_eq_some_iff {x : Except ε α} {e : ε} : failure? x = some e ↔ x = .error e := by
  cases x <;> simp [failure?]

theorem failure?_map (f : α → β) (x : Except ε α) : failure? (x.map f) = failure? x := by
  cases x <;> rfl

/-- A sequence fails as its first part does, or else as its second part does on what the first gives. -/
theorem failure?_bind {x : Except ε α} {f : α → Except ε β} {later : Option ε}
    (h : ∀ a, x = .ok a → failure? (f a) = later) : failure? (x >>= f) = (failure? x).or later := by
  cases x with
  | error e => rfl
  | ok a => exact h a rfl

theorem failure?_bind_pure (x : Except ε α) (f : α → β) : failure? (x >>= fun a => pure (f a)) = failure? x := by
  cases x <;> rfl

/-- A list of conversions fails as the first of them that does; each of them looks for a failure among names of its own. -/
theorem failure?_mapM {f : α → Except ε β} {names : α → List String} {fault : String → Option ε}
    (h : ∀ a, failure? (f a) = (names a).findSome? fault) (l : List α) :
    failure? (l.mapM f) = (l.flatMap names).findSome? fault := by
  induction l with
  | nil => rfl
  | cons a rest ih =>
    rw [List.mapM_cons, failure?_bind fun b _ => failure?_bind_pure (rest.mapM f) (b :: ·), ih, h, List.flatMap_cons,
      List.findSome?_append]

/-- A list of conversions that succeeds converts the items one by one. -/
theorem mapM_eq_ok_iff {f : α → Except ε β} {R : α → β → Prop} (hf : ∀ a b, f a = .ok b ↔ R a b) {l : List α} {l' : List β} :
    l.mapM f = .ok l' ↔ List.Forall₂ R l l' := by
  constructor
  · intro h
    exact (forall₂_of_mapM_eq_ok h).imp fun a b => (hf a b).1
  · intro h
    induction h with
    | nil => rfl
    | @cons a b l l' hab _ ih =>
      rw [List.mapM_cons, (hf a b).2 hab, ih]
      rfl

end Failures

namespace Sdl

/-! ## Kinds of names -/

/-- A name is known if it is built in or a definition has it. -/
def Known (defs : List TypeDef) (n : String) : Prop := n ∈ builtinScalars ∨ ∃ t ∈ defs, t.name = n

instance (defs : List TypeDef) (n : String) : Decidable (Known defs n) := inferInstanceAs (Decidable (_ ∨ _))

/-- The kind of a name is that of its last definition, or scalar if it is built in and has no definition. -/
inductive HasKind (defs : List TypeDef) (n : String) : TypeKind → Prop where
  | defined {before after : List TypeDef} {t : TypeDef} (hdefs : defs = before ++ t :: after) (hname : t.name = n)
      (hlast : ∀ u ∈ after, u.name ≠ n) : HasKind defs n t.body.kind
  | builtin (hdefs : ∀ t ∈ defs, t.name ≠ n) (hn : n ∈ builtinScalars) : HasKind defs n .scalar

theorem kindOf?_eq_some_iff (defs : List TypeDef) (n : String) (kind : TypeKind) :
    kindOf? defs n = some kind ↔ HasKind defs n kind := by
  constructor
  · intro h
    unfold kindOf? at h
    split at h
    next t hfind =>
      cases h
      obtain ⟨hname, after, before, hdefs, hafter⟩ := List.find?_eq_some_iff_append.1 hfind
      have hsplit : defs = before.reverse ++ t :: after.reverse := by
        rw [← List.reverse_reverse defs, hdefs]
        simp
      refine .defined hsplit (eq_of_beq hname) fun u hu hun => ?_
      have hu := hafter u (List.mem_reverse.1 hu)
      simp [hun] at hu
    next hfind =>
      split at h
      next hn =>
        cases h
        refine .builtin (fun t ht htn => ?_) (List.contains_iff_mem.1 hn)
        exact List.find?_eq_none.1 hfind t (List.mem_reverse.2 ht) (beq_iff_eq.2 htn)
      next => cases h
  · intro h
    cases h with
    | @defined before after t hdefs hname hlast =>
      have hfind : defs.reverse.find? (fun u => u.name == n) = some t := by
        refine List.find?_eq_some_iff_append.2 ⟨beq_iff_eq.2 hname, after.reverse, before.reverse, ?_, fun u hu => ?_⟩
        · simp [hdefs]
        · simp [hlast u (List.mem_reverse.1 hu)]
      rw [kindOf?, hfind]
    | builtin hdefs hn =>
      have hfind : defs.reverse.find? (fun u => u.name == n) = none := by
        rw [List.find?_eq_none]
        intro u hu hun
        exact hdefs u (List.mem_reverse.1 hu) (eq_of_beq hun)
      rw [kindOf?, hfind]
      simp [hn]

theorem kindOf?_eq_none_iff (defs : List TypeDef) (n : String) : kindOf? defs n = none ↔ ¬ Known defs n := by
  unfold kindOf? Known
  split
  next t hfind =>
    have hname := List.find?_some hfind
    have ht : t ∈ defs := List.mem_reverse.1 (List.mem_of_find?_eq_some hfind)
    exact iff_of_false nofun fun h => h (.inr ⟨t, ht, eq_of_beq hname⟩)
  next hfind =>
    have hnone : ¬ ∃ t ∈ defs, t.name = n := by
      rintro ⟨t, ht, htn⟩
      exact List.find?_eq_none.1 hfind t (List.mem_reverse.2 ht) (beq_iff_eq.2 htn)
    by_cases hn : n ∈ builtinScalars <;> simp [hn, hnone]

/-- The error for a name that is not known. -/
def unknown? (defs : List TypeDef) (n : String) : Option Error :=
  match kindOf? defs n with
  | some _ => none
  | none => some (.unknownType n)

theorem unknown?_eq_none_iff (defs : List TypeDef) (n : String) : unknown? defs n = none ↔ Known defs n := by
  rw [← not_iff_not, ← kindOf?_eq_none_iff, unknown?]
  cases kindOf? defs n <;> simp

theorem unknown?_eq_some_iff (defs : List TypeDef) (n : String) (e : Error) :
    unknown? defs n = some e ↔ ¬ Known defs n ∧ e = .unknownType n := by
  rw [← kindOf?_eq_none_iff, unknown?]
  cases kindOf? defs n <;> simp [eq_comm]

/-! ## References -/

/-- The names that a field refers to: those of its arguments and then that of its type. -/
def Field.references (f : Field) : List String := f.args.map (fun v => v.type.baseName) ++ [f.type.baseName]

/-- The names that the fields of a definition refer to, in order. -/
def Body.references : Body → List String
  | .object fs => fs.flatMap Field.references
  | .interface fs => fs.flatMap Field.references
  | .input vs => vs.map fun v => v.type.baseName
  | _ => []

/-- The names that a document refers to, in order. -/
def references (d : Document) : List String := (typeDefs d).flatMap fun t => t.body.references

theorem TypeExpr.failure?_toRef (defs : List TypeDef) (e : TypeExpr) :
    failure? (e.toRef defs) = [e.baseName].findSome? (unknown? defs) := by
  induction e with
  | named n =>
    rw [toRef, baseName, List.findSome?_singleton, unknown?]
    cases kindOf? defs n <;> rfl
  | list item ih => rw [toRef, failure?_map, ih, baseName]
  | nonNull inner ih => rw [toRef, failure?_map, ih, baseName]

theorem InputValue.failure?_convert (defs : List TypeDef) (v : InputValue) :
    failure? (v.convert defs) = [v.type.baseName].findSome? (unknown? defs) := by
  rw [convert, failure?_bind_pure, TypeExpr.failure?_toRef]

theorem InputValue.failure?_mapM (defs : List TypeDef) (vs : List InputValue) :
    failure? (vs.mapM (InputValue.convert defs)) = (vs.map fun v => v.type.baseName).findSome? (unknown? defs) := by
  rw [SdkLoom.failure?_mapM (InputValue.failure?_convert defs), ← List.map_eq_flatMap]

theorem Field.failure?_convert (defs : List TypeDef) (f : Field) :
    failure? (f.convert defs) = f.references.findSome? (unknown? defs) := by
  rw [convert, failure?_bind fun _ _ => failure?_bind_pure _ _, TypeExpr.failure?_toRef, InputValue.failure?_mapM, references,
    List.findSome?_append]

theorem TypeDef.failure?_convert (defs : List TypeDef) (t : TypeDef) :
    failure? (t.convert defs) = t.body.references.findSome? (unknown? defs) := by
  obtain ⟨description, name, body⟩ := t
  cases body with
  | scalar => rfl
  | union => rfl
  | enum values => rfl
  | object fs =>
    rw [convert, failure?_bind_pure]
    exact failure?_mapM (Field.failure?_convert defs) fs
  | interface fs =>
    rw [convert, failure?_bind_pure]
    exact failure?_mapM (Field.failure?_convert defs) fs
  | input vs =>
    rw [convert, failure?_bind_pure]
    exact InputValue.failure?_mapM defs vs

end Sdl

/-- A document fails with the first name that it refers to and that is not known. -/
theorem Schema.failure?_ofDocument (d : Sdl.Document) :
    failure? (Schema.ofDocument d) = (Sdl.references d).findSome? (Sdl.unknown? (Sdl.typeDefs d)) := by
  rw [ofDocument, failure?_bind_pure]
  exact failure?_mapM (Sdl.TypeDef.failure?_convert _) _

namespace Sdl

/-! ## What a conversion keeps -/

/-- A reference says what a written type says: the same wrappers around the same name, with the kind of that name. -/
inductive TypeExpr.Matches (defs : List TypeDef) : TypeExpr → TypeRef → Prop where
  | named {n : String} {kind : TypeKind} : HasKind defs n kind → Matches defs (.named n) (.named kind n)
  | list {item : TypeExpr} {r : TypeRef} : Matches defs item r → Matches defs (.list item) (.list r)
  | nonNull {inner : TypeExpr} {r : TypeRef} : Matches defs inner r → Matches defs (.nonNull inner) (.nonNull r)

/-- An argument or input field of a schema says what the written one says; a default value is given by its text. -/
structure InputValue.Matches (defs : List TypeDef) (v : InputValue) (v' : SdkLoom.InputValue) : Prop where
  name : v'.name = v.name
  description : v'.description = v.description
  type : v.type.Matches defs v'.type
  default : v'.defaultValue = v.default.map Value.text

/-- A field of a schema says what the written one says, argument by argument. -/
structure Field.Matches (defs : List TypeDef) (f : Field) (f' : FieldDef) : Prop where
  name : f'.name = f.name
  description : f'.description = f.description
  args : List.Forall₂ (InputValue.Matches defs) f.args f'.args
  type : f.type.Matches defs f'.type

/-- A value of an enumeration says what the written one says. -/
def EnumValue.Matches (v : EnumValue) (v' : SdkLoom.EnumValue) : Prop := v'.name = v.name ∧ v'.description = v.description

/-- A list that may be missing has the items of another one by one, and is missing where that one is. -/
inductive OptionalItems {α β : Type} (R : α → β → Prop) : Option (List α) → Option (List β) → Prop where
  | none : OptionalItems R none none
  | some {l : List α} {l' : List β} : List.Forall₂ R l l' → OptionalItems R (some l) (some l')

/-- The fields of an object or interface. -/
def Body.fields? : Body → Option (List Field)
  | .object fs => some fs
  | .interface fs => some fs
  | _ => none

/-- The fields of an input type. -/
def Body.inputs? : Body → Option (List InputValue)
  | .input vs => some vs
  | _ => none

/-- The values of an enumeration. -/
def Body.enumValues? : Body → Option (List EnumValue)
  | .enum vs => some vs
  | _ => none

/-- A definition of a schema says what the written one says: it has the same name, description and kind, and the same fields,
input fields or values in the same order. -/
structure TypeDef.Matches (defs : List TypeDef) (t : TypeDef) (t' : SdkLoom.TypeDef) : Prop where
  name : t'.name = t.name
  description : t'.description = t.description
  kind : t'.kind = t.body.kind
  fields : OptionalItems (Field.Matches defs) t.body.fields? t'.fields
  inputFields : OptionalItems (InputValue.Matches defs) t.body.inputs? t'.inputFields
  enumValues : OptionalItems EnumValue.Matches t.body.enumValues? t'.enumValues

section Conversions

variable {defs : List TypeDef}

theorem TypeExpr.toRef_eq_ok_iff {e : TypeExpr} {r : TypeRef} : e.toRef defs = .ok r ↔ e.Matches defs r := by
  constructor
  · intro h
    induction e generalizing r with
    | named n =>
      rw [toRef] at h
      split at h
      next kind hkind =>
        cases h
        exact .named ((kindOf?_eq_some_iff _ _ _).1 hkind)
      next => cases h
    | list item ih =>
      obtain ⟨r', hr, rfl⟩ := map_eq_ok_iff.1 h
      exact .list (ih hr)
    | nonNull inner ih =>
      obtain ⟨r', hr, rfl⟩ := map_eq_ok_iff.1 h
      exact .nonNull (ih hr)
  · intro h
    induction h with
    | named hkind => rw [toRef, (kindOf?_eq_some_iff _ _ _).2 hkind]
    | list _ ih => rw [toRef, ih, Except.map]
    | nonNull _ ih => rw [toRef, ih, Except.map]

theorem InputValue.convert_eq_ok_iff {v : InputValue} {v' : SdkLoom.InputValue} :
    v.convert defs = .ok v' ↔ v.Matches defs v' := by
  constructor
  · intro h
    obtain ⟨type, htype, h⟩ := bind_eq_ok_iff.1 h
    cases h
    exact ⟨rfl, rfl, TypeExpr.toRef_eq_ok_iff.1 htype, rfl⟩
  · rintro ⟨hname, hdescription, htype, hdefault⟩
    refine bind_eq_ok_iff.2 ⟨v'.type, TypeExpr.toRef_eq_ok_iff.2 htype, ?_⟩
    rw [← hname, ← hdescription, ← hdefault]
    rfl

theorem Field.convert_eq_ok_iff {f : Field} {f' : FieldDef} : f.convert defs = .ok f' ↔ f.Matches defs f' := by
  constructor
  · intro h
    obtain ⟨args, hargs, h⟩ := bind_eq_ok_iff.1 h
    obtain ⟨type, htype, h⟩ := bind_eq_ok_iff.1 h
    cases h
    exact ⟨rfl, rfl, (mapM_eq_ok_iff fun _ _ => InputValue.convert_eq_ok_iff).1 hargs, TypeExpr.toRef_eq_ok_iff.1 htype⟩
  · rintro ⟨hname, hdescription, hargs, htype⟩
    refine bind_eq_ok_iff.2 ⟨f'.args, (mapM_eq_ok_iff fun _ _ => InputValue.convert_eq_ok_iff).2 hargs, ?_⟩
    refine bind_eq_ok_iff.2 ⟨f'.type, TypeExpr.toRef_eq_ok_iff.2 htype, ?_⟩
    rw [← hname, ← hdescription]
    rfl

theorem EnumValue.forall₂_matches_iff {vs : List EnumValue} {vs' : List SdkLoom.EnumValue} :
    List.Forall₂ EnumValue.Matches vs vs' ↔ vs' = vs.map fun v => { name := v.name, description := v.description } := by
  constructor
  · intro h
    induction h with
    | nil => rfl
    | @cons v v' vs vs' hv _ ih =>
      obtain ⟨name, description⟩ := v'
      obtain ⟨rfl, rfl⟩ := hv
      rw [List.map_cons, ih]
  · rintro rfl
    exact List.forall₂_map_right_iff.2 (List.forall₂_same.2 fun _ _ => ⟨rfl, rfl⟩)

theorem TypeDef.convert_eq_ok_iff {t : TypeDef} {t' : SdkLoom.TypeDef} : t.convert defs = .ok t' ↔ t.Matches defs t' := by
  obtain ⟨description, name, body⟩ := t
  constructor
  · intro h
    cases body with
    | scalar =>
      cases h
      exact ⟨rfl, rfl, rfl, .none, .none, .none⟩
    | union =>
      cases h
      exact ⟨rfl, rfl, rfl, .none, .none, .none⟩
    | enum values =>
      cases h
      exact ⟨rfl, rfl, rfl, .none, .none, .some (EnumValue.forall₂_matches_iff.2 rfl)⟩
    | object fs =>
      obtain ⟨fs', hfs, h⟩ := bind_eq_ok_iff.1 h
      cases h
      exact ⟨rfl, rfl, rfl, .some ((mapM_eq_ok_iff fun _ _ => Field.convert_eq_ok_iff).1 hfs), .none, .none⟩
    | interface fs =>
      obtain ⟨fs', hfs, h⟩ := bind_eq_ok_iff.1 h
      cases h
      exact ⟨rfl, rfl, rfl, .some ((mapM_eq_ok_iff fun _ _ => Field.convert_eq_ok_iff).1 hfs), .none, .none⟩
    | input vs =>
      obtain ⟨vs', hvs, h⟩ := bind_eq_ok_iff.1 h
      cases h
      exact ⟨rfl, rfl, rfl, .none, .some ((mapM_eq_ok_iff fun _ _ => InputValue.convert_eq_ok_iff).1 hvs), .none⟩
  · intro h
    obtain ⟨kind', name', description', fields', inputs', values'⟩ := t'
    obtain ⟨hname, hdescription, hkind, hfields, hinputs, hvalues⟩ := h
    simp only at hname hdescription hkind hfields hinputs hvalues
    subst hname hdescription hkind
    cases body with
    | scalar =>
      cases hfields
      cases hinputs
      cases hvalues
      rfl
    | union =>
      cases hfields
      cases hinputs
      cases hvalues
      rfl
    | enum values =>
      cases hfields
      cases hinputs
      cases hvalues with
      | some hvalues =>
        rw [EnumValue.forall₂_matches_iff.1 hvalues]
        rfl
    | object fs =>
      cases hinputs
      cases hvalues
      cases hfields with
      | some hfields =>
        exact bind_eq_ok_iff.2 ⟨_, (mapM_eq_ok_iff fun _ _ => Field.convert_eq_ok_iff).2 hfields, rfl⟩
    | interface fs =>
      cases hinputs
      cases hvalues
      cases hfields with
      | some hfields =>
        exact bind_eq_ok_iff.2 ⟨_, (mapM_eq_ok_iff fun _ _ => Field.convert_eq_ok_iff).2 hfields, rfl⟩
    | input vs =>
      cases hfields
      cases hvalues
      cases hinputs with
      | some hinputs =>
        exact bind_eq_ok_iff.2 ⟨_, (mapM_eq_ok_iff fun _ _ => InputValue.convert_eq_ok_iff).2 hinputs, rfl⟩

end Conversions

/-! ## Roots -/

/-- The root types that a document's last schema definition gives. -/
def LastRoots (d : Document) (roots : Roots) : Prop :=
  ∃ before after, d = before ++ .schema roots :: after ∧ ∀ x ∈ after, ∀ roots', x ≠ .schema roots'

/-- A document without a schema definition. -/
def Rootless (d : Document) : Prop := ∀ x ∈ d, ∀ roots, x ≠ .schema roots

theorem lastRoots?_concat_schema (d : Document) (roots : Roots) : lastRoots? (d ++ [.schema roots]) = some roots := by
  rw [lastRoots?, List.foldl_append]
  rfl

theorem lastRoots?_concat_other (d : Document) {x : Definition} (hx : ∀ roots, x ≠ .schema roots) :
    lastRoots? (d ++ [x]) = lastRoots? d := by
  rw [lastRoots?, List.foldl_append]
  cases x with
  | schema roots => exact absurd rfl (hx roots)
  | _ => rfl

/-- The schema definition that counts is the last one. -/
theorem lastRoots?_spec (d : Document) :
    lastRoots? d = none ∧ Rootless d ∨ ∃ roots, lastRoots? d = some roots ∧ LastRoots d roots := by
  induction d using List.reverseRecOn with
  | nil => exact .inl ⟨rfl, fun x hx => absurd hx List.not_mem_nil⟩
  | append_singleton d x ih =>
    by_cases hx : ∃ roots, x = .schema roots
    · obtain ⟨roots, rfl⟩ := hx
      exact .inr ⟨roots, lastRoots?_concat_schema d roots, d, [], rfl, fun y hy => absurd hy List.not_mem_nil⟩
    · have hx : ∀ roots, x ≠ .schema roots := fun roots h => hx ⟨roots, h⟩
      have hlater : ∀ l : Document, (∀ y ∈ l, ∀ roots, y ≠ .schema roots) → ∀ y ∈ l ++ [x], ∀ roots, y ≠ .schema roots := by
        intro l hl y hy
        rcases List.mem_append.1 hy with hy | hy
        · exact hl y hy
        · rw [List.mem_singleton.1 hy]
          exact hx
      rw [lastRoots?_concat_other d hx]
      rcases ih with ⟨hnone, hd⟩ | ⟨roots, hroots, before, after, hd, hafter⟩
      · exact .inl ⟨hnone, hlater d hd⟩
      · exact .inr ⟨roots, hroots, before, after ++ [x], by simp [hd], hlater after hafter⟩

/-- The root of a document by its schema definition, or by the usual name of a type. -/
structure HasRoot (d : Document) (declared : Roots → Option String) (usual : String) (root : Option String) : Prop where
  declared : ∀ roots, LastRoots d roots → root = declared roots
  defined : Rootless d → (∃ t ∈ typeDefs d, t.name = usual) → root = some usual
  missing : Rootless d → (∀ t ∈ typeDefs d, t.name ≠ usual) → root = none

/-- There is only one last schema definition. -/
theorem LastRoots.unique {d : Document} {roots roots' : Roots} (h : LastRoots d roots) (h' : LastRoots d roots') :
    roots = roots' := by
  obtain ⟨before, after, rfl, hafter⟩ := h
  obtain ⟨before', after', hd, hafter'⟩ := h'
  rcases List.append_eq_append_iff.1 hd with ⟨mid, hbefore, hmid⟩ | ⟨mid, hbefore, hmid⟩
  · cases mid with
    | nil => cases hmid; rfl
    | cons x mid =>
      cases hmid
      exact absurd rfl (hafter (.schema roots') (by simp) roots')
  · cases mid with
    | nil => cases hmid; rfl
    | cons x mid =>
      cases hmid
      exact absurd rfl (hafter' (.schema roots) (by simp) roots)

theorem not_rootless {d : Document} {roots : Roots} (h : LastRoots d roots) : ¬ Rootless d := by
  obtain ⟨before, after, rfl, -⟩ := h
  exact fun hd => hd (.schema roots) (by simp) roots rfl

theorem hasRoot_rootOf (d : Document) (declared : Roots → Option String) {usual : String} (husual : usual ∉ builtinScalars) :
    HasRoot d declared usual (rootOf d declared usual) := by
  unfold rootOf
  rcases lastRoots?_spec d with ⟨hnone, hd⟩ | ⟨roots, hroots, hlast⟩
  · rw [hnone]
    refine ⟨fun roots hlast => absurd hd (not_rootless hlast), fun _ hdef => ?_, fun _ hdef => ?_⟩
    · have hkind : kindOf? (typeDefs d) usual ≠ none := fun h =>
        (kindOf?_eq_none_iff _ _).1 h (.inr hdef)
      simp [Option.isSome_iff_ne_none, hkind]
    · have hkind : kindOf? (typeDefs d) usual = none := by
        rw [kindOf?_eq_none_iff]
        rintro (h | ⟨t, ht, htn⟩)
        · exact husual h
        · exact hdef t ht htn
      simp [hkind]
  · rw [hroots]
    refine ⟨fun roots' hlast' => ?_, fun hd => absurd hd (not_rootless hlast), fun hd => absurd hd (not_rootless hlast)⟩
    rw [hlast.unique hlast']

theorem HasRoot.unique {d : Document} {declared : Roots → Option String} {usual : String} {root root' : Option String}
    (h : HasRoot d declared usual root) (h' : HasRoot d declared usual root') : root = root' := by
  rcases lastRoots?_spec d with ⟨-, hd⟩ | ⟨roots, -, hlast⟩
  · by_cases hdef : ∃ t ∈ typeDefs d, t.name = usual
    · rw [h.defined hd hdef, h'.defined hd hdef]
    · have hnot : ∀ t ∈ typeDefs d, t.name ≠ usual := fun t ht htn => hdef ⟨t, ht, htn⟩
      rw [h.missing hd hnot, h'.missing hd hnot]
  · rw [h.declared roots hlast, h'.declared roots hlast]

/-! ## What does not count -/

/-- Whether a definition counts for the schema: extensions and directives do not. -/
def Definition.counts : Definition → Bool
  | .schema _ => true
  | .type _ => true
  | _ => false

theorem typeDefs_filter_counts (d : Document) : typeDefs (d.filter Definition.counts) = typeDefs d := by
  unfold typeDefs
  rw [List.filterMap_filter]
  refine List.filterMap_congr fun x _ => ?_
  cases x <;> rfl

theorem lastRoots?_filter_counts (d : Document) : lastRoots? (d.filter Definition.counts) = lastRoots? d := by
  unfold lastRoots?
  rw [List.foldl_filter]
  refine congrArg (fun f => d.foldl f none) (funext fun acc => funext fun x => ?_)
  cases x <;> rfl

/-! ## The schema of a document -/

/-- A schema is that of a document: it has the definitions one by one and then the built-in scalars that are not defined, in
their order, and its roots. -/
structure HasSchema (d : Document) (s : Schema) : Prop where
  types : ∃ types, List.Forall₂ (TypeDef.Matches (typeDefs d)) (typeDefs d) types ∧
    s.types = types ++
      (["Boolean", "Float", "ID", "Int", "String"].filter fun n => ∀ t ∈ typeDefs d, t.name ≠ n).map scalarDef
  query : HasRoot d Roots.query "Query" s.queryType
  mutation : HasRoot d Roots.mutation "Mutation" s.mutationType
  subscription : HasRoot d Roots.subscription "Subscription" s.subscriptionType

/-- The built-in scalars that converted definitions lack are those that are not defined. -/
theorem missingScalars_eq {defs : List TypeDef} {types : List SdkLoom.TypeDef}
    (h : List.Forall₂ (TypeDef.Matches defs) defs types) :
    missingScalars types = (builtinScalars.filter fun n => ∀ t ∈ defs, t.name ≠ n).map scalarDef := by
  unfold missingScalars
  refine congrArg (List.map scalarDef) (List.filter_congr fun n _ => ?_)
  have hnames : (∃ t ∈ defs, t.name = n) ↔ ∃ t' ∈ types, t'.name = n :=
    exists_mem_iff_of_forall₂ (fun t t' ht => by rw [ht.name]) h
  rw [Bool.eq_iff_iff, decide_eq_true_iff]
  simpa using not_congr hnames.symm

end Sdl

theorem Schema.ofDocument_eq_ok_iff (d : Sdl.Document) (s : Schema) :
    Schema.ofDocument d = .ok s ↔ Sdl.HasSchema d s := by
  have hquery := @Sdl.hasRoot_rootOf d Sdl.Roots.query "Query" (by decide)
  have hmutation := @Sdl.hasRoot_rootOf d Sdl.Roots.mutation "Mutation" (by decide)
  have hsubscription := @Sdl.hasRoot_rootOf d Sdl.Roots.subscription "Subscription" (by decide)
  constructor
  · intro h
    obtain ⟨types, htypes, h⟩ := bind_eq_ok_iff.1 h
    cases h
    have hmatches := (mapM_eq_ok_iff fun _ _ => Sdl.TypeDef.convert_eq_ok_iff).1 htypes
    refine ⟨⟨types, hmatches, ?_⟩, hquery, hmutation, hsubscription⟩
    simp only [Sdl.missingScalars_eq hmatches]
    rfl
  · rintro ⟨⟨types, hmatches, htypes⟩, hquery', hmutation', hsubscription'⟩
    refine bind_eq_ok_iff.2 ⟨types, (mapM_eq_ok_iff fun _ _ => Sdl.TypeDef.convert_eq_ok_iff).2 hmatches, ?_⟩
    obtain ⟨queryType, mutationType, subscriptionType, types'⟩ := s
    simp only at htypes hquery' hmutation' hsubscription'
    rw [hquery'.unique hquery, hmutation'.unique hmutation, hsubscription'.unique hsubscription, htypes,
      Sdl.missingScalars_eq hmatches]
    rfl

theorem Schema.ofDocument_filter_counts (d : Sdl.Document) :
    Schema.ofDocument (d.filter Sdl.Definition.counts) = Schema.ofDocument d := by
  unfold ofDocument Sdl.rootOf
  rw [Sdl.typeDefs_filter_counts, Sdl.lastRoots?_filter_counts]

/-- A document fails exactly if it refers to a name that is neither built in nor defined, and the error names the first such
name, where the arguments of a field come before its type. Otherwise it has the schema that says what the document says, and
no other. Extensions and directives may be taken out of it. -/
theorem document_schema_exactly (d : Sdl.Document) :
    ((∃ e, Schema.ofDocument d = .error e) ↔ ∃ n ∈ Sdl.references d, ¬ Sdl.Known (Sdl.typeDefs d) n) ∧
    (∀ e, Schema.ofDocument d = .error e ↔ ∃ before n after, Sdl.references d = before ++ n :: after ∧
      (∀ m ∈ before, Sdl.Known (Sdl.typeDefs d) m) ∧ ¬ Sdl.Known (Sdl.typeDefs d) n ∧ e = .unknownType n) ∧
    (∀ n, (Error.unknownType n).message = "sdl error: unknown type '" ++ n ++ "'") ∧
    (∀ s, Schema.ofDocument d = .ok s ↔ Sdl.HasSchema d s) ∧
    Schema.ofDocument (d.filter Sdl.Definition.counts) = Schema.ofDocument d := by
  refine ⟨?_, fun e => ?_, fun _ => rfl, Schema.ofDocument_eq_ok_iff d, Schema.ofDocument_filter_counts d⟩
  · have hfails : (∃ e, Schema.ofDocument d = .error e) ↔ failure? (Schema.ofDocument d) ≠ none := by
      cases Schema.ofDocument d <;> simp [failure?]
    rw [hfails, Schema.failure?_ofDocument, ne_eq, List.findSome?_eq_none_iff]
    simp only [Sdl.unknown?_eq_none_iff, not_forall, exists_prop]
  · rw [← failure?_eq_some_iff, Schema.failure?_ofDocument, List.findSome?_eq_some_iff]
    simp only [Sdl.unknown?_eq_none_iff, Sdl.unknown?_eq_some_iff]
    constructor
    · rintro ⟨before, n, after, hrefs, ⟨hn, he⟩, hbefore⟩
      exact ⟨before, n, after, hrefs, hbefore, hn, he⟩
    · rintro ⟨before, n, after, hrefs, hbefore, hn, he⟩
      exact ⟨before, n, after, hrefs, ⟨hn, he⟩, hbefore⟩

/-- Ferries by their harbour, with what does not count: an extension, a directive and the first of two schema definitions. -/
def ferryDocument : Sdl.Document :=
  [.schema ⟨some "Ferry", none, none⟩,
    .type ⟨none, "Harbour", .object [⟨none, "ferries", [⟨none, "first", .named "Int", some (.int 10)⟩],
      .nonNull (.list (.nonNull (.named "Ferry")))⟩]⟩,
    .extension,
    .type ⟨some "a ship", "Ferry", .interface [⟨none, "state", [], .named "State"⟩]⟩,
    .directive,
    .type ⟨none, "State", .enum [⟨none, "MOORED"⟩, ⟨none, "SAILING"⟩]⟩,
    .schema ⟨some "Harbour", none, none⟩]

/-- A search for ferries by what is not defined, the result of which is not defined either. -/
def searchDocument : Sdl.Document :=
  [.type ⟨none, "Query", .object [⟨none, "search", [⟨none, "first", .named "Int", none⟩,
    ⟨none, "by", .list (.named "Filter"), none⟩], .nonNull (.named "Ferry")⟩]⟩]

/-- The ferries have a schema that says what their document says, and the search fails with the name of its argument's
type. -/
theorem ferry_schema :
    (∃ s, Schema.ofDocument ferryDocument = .ok s ∧ Sdl.HasSchema ferryDocument s ∧ s.queryType = some "Harbour") ∧
    Schema.ofDocument searchDocument = .error (.unknownType "Filter") := by
  constructor
  · obtain ⟨s, hs, hquery⟩ : ∃ s, Schema.ofDocument ferryDocument = .ok s ∧ s.queryType = some "Harbour" := ⟨_, rfl, rfl⟩
    exact ⟨s, hs, ((document_schema_exactly ferryDocument).2.2.2.1 s).1 hs, hquery⟩
  · exact ((document_schema_exactly searchDocument).2.1 _).2
      ⟨["Int"], "Filter", ["Ferry"], rfl, by decide, by decide, rfl⟩

end SdkLoom
