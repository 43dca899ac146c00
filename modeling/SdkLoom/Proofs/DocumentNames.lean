import SdkLoom.Proofs.DocumentCoherence
import SdkLoom.Proofs.QueryText

/-!
# Names in schema documents

Whatever a schema document calls by a name, that is a name of GraphQL: the machine that finds the tokens makes none but such
names (`Token.named_of_scan`), every reader of the grammar takes its names from the tokens (`Grammar.Yields`), and so do the
definitions of a document and the schema that is made of them (`Schema.named_of_ofSdl`).
-/

namespace SdkLoom.Sdl

/-! ## Tokens -/

namespace Token

/-- A token that has a name has one of GraphQL. -/
def Named : Token → Prop
  | .name s => isName s = true
  | _ => True

/-- A name stays one when a character of names is added. -/
theorem isName_cons {cs : List Char} (h : isName (String.ofList cs.reverse) = true) {c : Char} (hc : isNameChar c = true) :
    isName (String.ofList (c :: cs).reverse) = true := by
  simp only [isName, String.toList_ofList, List.reverse_cons] at h ⊢
  cases hcs : cs.reverse with
  | nil => simp [hcs] at h
  | cons first rest =>
    rw [hcs] at h
    simp only [Bool.and_eq_true] at h
    simp [h.1, h.2, hc]

/-- What the machine is inside of is no name, or what it has read so far of it is one. -/
def Mode.Named : Mode → Prop
  | .name cs => isName (String.ofList cs.reverse) = true
  | _ => True

/-- The names that the machine has found, and the one that it may be inside of, are names of GraphQL. -/
structure State.Named (st : State) : Prop where
  mode : st.mode.Named
  tokens : ∀ t ∈ st.tokens, t.Named

theorem named_of_ofNumber? {cs : List Char} {t : Token} (h : ofNumber? cs = some t) : t.Named := by
  unfold ofNumber? at h
  dsimp only at h
  split_ifs at h
  · obtain ⟨x, -, rfl⟩ := Option.map_eq_some_iff.1 h
    trivial
  · cases h
    trivial

theorem named_of_start {depth : Nat} {tokens : List Token} (h : ∀ t ∈ tokens, t.Named) {c : Char} {st : State}
    (hst : start depth tokens c = some st) : st.Named := by
  have hmark : ∀ t ∈ Token.mark c :: tokens, t.Named := List.forall_mem_cons.2 ⟨trivial, h⟩
  unfold start at hst
  split_ifs at hst with hskipped hcomment hopening hdepth hclosing hismark hname
  all_goals cases hst
  all_goals
    first
    | exact ⟨trivial, h⟩
    | exact ⟨trivial, hmark⟩
    | exact ⟨by simp [Mode.Named, isName, hname], h⟩

theorem State.Named.settle {st st' : State} (hst : st.Named) (h : st.settle = some st') : st'.Named := by
  unfold State.settle at h
  split at h
  · cases h
    exact ⟨trivial, hst.tokens⟩
  next cs hmode =>
    cases h
    have hname := hst.mode
    rw [hmode] at hname
    exact ⟨trivial, List.forall_mem_cons.2 ⟨hname, hst.tokens⟩⟩
  · obtain ⟨t, ht, rfl⟩ := Option.map_eq_some_iff.1 h
    exact ⟨trivial, List.forall_mem_cons.2 ⟨named_of_ofNumber? ht, hst.tokens⟩⟩
  · cases h
    exact ⟨trivial, List.forall_mem_cons.2 ⟨trivial, hst.tokens⟩⟩
  · cases h
    exact hst

theorem State.Named.restart {st st' : State} (hst : st.Named) {c : Char} (h : st.restart c = some st') : st'.Named := by
  obtain ⟨st₁, h₁, h⟩ := Option.bind_eq_some_iff.1 h
  exact named_of_start (hst.settle h₁).tokens h

theorem State.Named.readString {st st' : State} (hst : st.Named) {cs : List Char} {escaped : Bool} {c : Char}
    (h : Token.readString st cs escaped c = some st') : st'.Named := by
  unfold Token.readString at h
  split_ifs at h
  · obtain ⟨s, -, rfl⟩ := Option.map_eq_some_iff.1 h
    exact ⟨trivial, List.forall_mem_cons.2 ⟨trivial, hst.tokens⟩⟩
  · cases h
    exact ⟨trivial, hst.tokens⟩

/-- Reading a character keeps names apart from all that is none. -/
theorem State.Named.step {st st' : State} (hst : st.Named) {c : Char} (h : Token.step st c = some st') : st'.Named := by
  unfold Token.step at h
  split at h
  · exact named_of_start hst.tokens h
  · cases h
    split
    · exact ⟨trivial, hst.tokens⟩
    · exact hst
  next cs hmode =>
    split at h
    next hc =>
      cases h
      have hname := hst.mode
      rw [hmode] at hname
      exact ⟨isName_cons hname hc, hst.tokens⟩
    next => exact hst.restart h
  · split at h
    · exact hst.restart h
    · cases h
      exact ⟨trivial, hst.tokens⟩
  · split at h
    · cases h
      exact ⟨trivial, hst.tokens⟩
    · exact hst.readString h
  · split at h
    · cases h
      exact ⟨trivial, hst.tokens⟩
    · exact hst.restart h
  · exact hst.readString h
  · split_ifs at h
    all_goals cases h
    · exact ⟨trivial, hst.tokens⟩
    · exact ⟨trivial, hst.tokens⟩
    · exact ⟨trivial, List.forall_mem_cons.2 ⟨trivial, hst.tokens⟩⟩
    · exact ⟨trivial, hst.tokens⟩

theorem State.Named.run {cs : List Char} {st st' : State} (hst : st.Named) (h : cs.foldlM Token.step st = some st') :
    st'.Named := by
  induction cs generalizing st with
  | nil =>
    cases h
    exact hst
  | cons c cs ih =>
    rw [List.foldlM_cons] at h
    obtain ⟨st₁, h₁, h⟩ := Option.bind_eq_some_iff.1 h
    exact ih (hst.step h₁) h

/-- The names among the tokens of a document are names of GraphQL. -/
theorem named_of_scan {cs : List Char} {ts : List Token} (h : scan cs = some ts) : ∀ t ∈ ts, t.Named := by
  obtain ⟨st₁, h₁, h⟩ := Option.bind_eq_some_iff.1 h
  obtain ⟨st₂, h₂, h⟩ := Option.bind_eq_some_iff.1 h
  have hstart : State.Named ⟨.between, 0, []⟩ := ⟨trivial, fun t ht => absurd ht List.not_mem_nil⟩
  have hst₂ := (hstart.run h₁).settle h₂
  split at h
  · cases h
    intro t ht
    exact hst₂.tokens t (List.mem_reverse.1 ht)
  · cases h

end Token

/-! ## Parts of documents -/

/-- An argument or input field has a name and a type of some name. -/
structure InputValue.Named (v : InputValue) : Prop where
  name : isName v.name = true
  type : isName v.type.baseName = true

/-- A field, its type and its arguments have names. -/
structure Field.Named (f : Field) : Prop where
  name : isName f.name = true
  type : isName f.type.baseName = true
  args : ∀ v ∈ f.args, v.Named

/-- All that a definition says besides its name has names. -/
def Body.Named : Body → Prop
  | .object fs => ∀ f ∈ fs, f.Named
  | .interface fs => ∀ f ∈ fs, f.Named
  | .enum vs => ∀ v ∈ vs, isName v.name = true
  | .input vs => ∀ v ∈ vs, v.Named
  | _ => True

/-- A type definition and all that it says have names. -/
structure TypeDef.Named (t : TypeDef) : Prop where
  name : isName t.name = true
  body : t.body.Named

/-- A definition has names, if it is one of a type. -/
def Definition.Named : Definition → Prop
  | .type t => t.Named
  | _ => True

/-! ## Readers -/

namespace Grammar

variable {α β : Type} {P : α → Prop}

/-- The names among tokens are names of GraphQL. -/
def AllNamed (ts : List Token) : Prop := ∀ t ∈ ts, t.Named

theorem AllNamed.tail {t : Token} {ts : List Token} (h : AllNamed (t :: ts)) : AllNamed ts :=
  fun u hu => h u (List.mem_cons_of_mem _ hu)

theorem AllNamed.drop {ts : List Token} (h : AllNamed ts) (n : Nat) : AllNamed (ts.drop n) :=
  fun t ht => h t (List.mem_of_mem_drop ht)

/-- From tokens that are named a reader makes parts that have a property, and it leaves tokens that are named. -/
def Yields (r : Reader α) (P : α → Prop) : Prop :=
  ∀ ts x rest, AllNamed ts → r ts = some (x, rest) → P x ∧ AllNamed rest

/-- A reader leaves tokens that are named. -/
def Passes (r : Reader α) : Prop := Yields r fun _ => True

/-- What is read first in a sequence has its property, and the sequence goes on with the tokens that are left. -/
theorem Yields.peel {r : Reader α} (hr : Yields r P) {ts : List Token} (hts : AllNamed ts)
    {k : α × List Token → Option β} {y : β} (h : r ts >>= k = some y) :
    ∃ x rest, P x ∧ AllNamed rest ∧ k (x, rest) = some y := by
  obtain ⟨⟨x, rest⟩, hx, h⟩ := Option.bind_eq_some_iff.1 h
  exact ⟨x, rest, (hr _ _ _ hts hx).1, (hr _ _ _ hts hx).2, h⟩

theorem yields_name : Yields name (isName · = true) := by
  intro ts x rest hts h
  unfold name at h
  split at h
  · cases h
    exact ⟨hts _ List.mem_cons_self, hts.tail⟩
  · cases h

theorem passes_mark (c : Char) : Passes (mark c) := by
  intro ts x rest hts h
  unfold mark at h
  split at h
  · split_ifs at h
    cases h
    exact ⟨trivial, hts.tail⟩
  · cases h

theorem passes_word (w : String) : Passes (word w) := by
  intro ts x rest hts h
  unfold word at h
  split at h
  · split_ifs at h
    cases h
    exact ⟨trivial, hts.tail⟩
  · cases h

theorem yields_itemsUntil {item : Reader α} (hitem : Yields item P) (close : Char) (fuel : Nat) :
    Yields (itemsUntil close item fuel) fun xs => ∀ x ∈ xs, P x := by
  induction fuel with
  | zero =>
    intro ts xs rest _ h
    cases h
  | succ fuel ih =>
    intro ts xs rest hts h
    rw [itemsUntil] at h
    split_ifs at h
    · cases h
      exact ⟨fun x hx => absurd hx List.not_mem_nil, hts.drop 1⟩
    · obtain ⟨x, ts₁, hx, hts₁, h⟩ := hitem.peel hts h
      obtain ⟨xs', ts₂, hxs, hts₂, h⟩ := ih.peel hts₁ h
      cases h
      exact ⟨List.forall_mem_cons.2 ⟨hx, hxs⟩, hts₂⟩

theorem yields_bracketed {item : Reader α} (hitem : Yields item P) (opening close : Char) :
    Yields (bracketed opening close item) fun xs => ∀ x ∈ xs, P x := by
  intro ts xs rest hts h
  obtain ⟨_, ts₁, -, hts₁, h⟩ := (passes_mark opening).peel hts h
  exact yields_itemsUntil hitem close _ _ _ _ hts₁ h

theorem yields_block? {item : Reader α} (hitem : Yields item P) (opening close : Char) :
    Yields (block? opening close item) fun xs => ∀ x ∈ xs.getD [], P x := by
  intro ts xs rest hts h
  unfold block? at h
  split_ifs at h
  · obtain ⟨xs', ts₁, hxs, hts₁, h⟩ := (yields_bracketed hitem opening close).peel hts h
    dsimp only at h
    split_ifs at h
    cases h
    exact ⟨hxs, hts₁⟩
  · cases h
    exact ⟨fun x hx => absurd hx List.not_mem_nil, hts⟩

theorem passes_separated (sep : Char) (fuel : Nat) : Passes (separated sep fuel) := by
  induction fuel with
  | zero =>
    intro ts xs rest _ h
    cases h
  | succ fuel ih =>
    intro ts xs rest hts h
    obtain ⟨x, ts₁, -, hts₁, h⟩ := yields_name.peel hts h
    dsimp only at h
    split_ifs at h
    · obtain ⟨xs', ts₂, -, hts₂, h⟩ := ih.peel (hts₁.drop 1) h
      cases h
      exact ⟨trivial, hts₂⟩
    · cases h
      exact ⟨trivial, hts₁⟩

theorem passes_names (sep : Char) : Passes (names sep) := by
  intro ts xs rest hts h
  refine passes_separated sep _ (skipMark sep ts) _ _ ?_ h
  unfold skipMark
  split_ifs
  · exact hts.drop 1
  · exact hts

theorem AllNamed.description {ts : List Token} (h : AllNamed ts) : AllNamed (description ts).2 := by
  unfold Grammar.description
  split
  · exact h.tail
  · exact h

/-- An exclamation mark leaves the name inside of a type. -/
theorem named_of_markNonNull {t t' : TypeExpr} {ts rest : List Token} (ht : isName t.baseName = true) (hts : AllNamed ts)
    (h : markNonNull t ts = (t', rest)) : isName t'.baseName = true ∧ AllNamed rest := by
  unfold markNonNull at h
  split_ifs at h
  · cases h
    exact ⟨ht, hts.drop 1⟩
  · cases h
    exact ⟨ht, hts⟩

theorem yields_typeExprIn (fuel : Nat) : Yields (typeExprIn fuel) fun t => isName t.baseName = true := by
  induction fuel with
  | zero =>
    intro ts t rest _ h
    cases h
  | succ fuel ih =>
    intro ts t rest hts h
    cases ts with
    | nil => cases h
    | cons token ts =>
      cases token with
      | name n =>
        have hn : isName (TypeExpr.named n).baseName = true := hts _ List.mem_cons_self
        exact named_of_markNonNull hn hts.tail (Option.some.inj h)
      | mark c =>
        by_cases hc : c = '['
        · subst hc
          obtain ⟨item, ts₁, hitem, hts₁, h⟩ := ih.peel hts.tail h
          obtain ⟨_, ts₂, -, hts₂, h⟩ := (passes_mark ']').peel hts₁ h
          exact named_of_markNonNull (t := .list item) hitem hts₂ (Option.some.inj h)
        · simp [typeExprIn, hc] at h
      | _ => cases h

theorem yields_typeExpr : Yields typeExpr fun t => isName t.baseName = true :=
  fun ts t rest hts h => yields_typeExprIn _ ts t rest hts h

theorem passes_memberOf {value : Reader Value} (hvalue : Passes value) : Passes (memberOf value) := by
  intro ts m rest hts h
  obtain ⟨k, ts₁, -, hts₁, h⟩ := yields_name.peel hts h
  obtain ⟨_, ts₂, -, hts₂, h⟩ := (passes_mark ':').peel hts₁ h
  obtain ⟨v, ts₃, -, hts₃, h⟩ := hvalue.peel hts₂ h
  cases h
  exact ⟨trivial, hts₃⟩

theorem passes_valueIn (withVariables : Bool) (fuel : Nat) : Passes (valueIn withVariables fuel) := by
  induction fuel with
  | zero =>
    intro ts v rest _ h
    cases h
  | succ fuel ih =>
    intro ts v rest hts h
    unfold valueIn at h
    split at h
    · cases h
      exact ⟨trivial, hts.tail⟩
    · cases h
      exact ⟨trivial, hts.tail⟩
    · cases h
      exact ⟨trivial, hts.tail⟩
    · cases h
      exact ⟨trivial, hts.tail⟩
    · split_ifs at h
      obtain ⟨⟨s, ts₁⟩, hs, heq⟩ := Option.map_eq_some_iff.1 h
      cases heq
      exact ⟨trivial, (yields_name _ _ _ hts.tail hs).2⟩
    · obtain ⟨⟨vs, ts₁⟩, hvs, heq⟩ := Option.map_eq_some_iff.1 h
      cases heq
      exact ⟨trivial, (yields_bracketed ih _ _ _ _ _ hts hvs).2⟩
    · obtain ⟨⟨ms, ts₁⟩, hms, heq⟩ := Option.map_eq_some_iff.1 h
      cases heq
      exact ⟨trivial, (yields_bracketed (passes_memberOf ih) _ _ _ _ _ hts hms).2⟩
    · cases h

theorem passes_value (withVariables : Bool) : Passes (value withVariables) :=
  fun ts v rest hts h => passes_valueIn withVariables _ ts v rest hts h

theorem passes_directivesIn (fuel : Nat) : Passes (directivesIn fuel) := by
  induction fuel with
  | zero =>
    intro ts n rest _ h
    cases h
  | succ fuel ih =>
    intro ts n rest hts h
    rw [directivesIn] at h
    split_ifs at h
    · obtain ⟨_, ts₁, -, hts₁, h⟩ := yields_name.peel (hts.drop 1) h
      obtain ⟨_, ts₂, -, hts₂, h⟩ := (yields_block? (passes_memberOf (passes_value true)) '(' ')').peel hts₁ h
      obtain ⟨_, ts₃, -, hts₃, h⟩ := ih.peel hts₂ h
      cases h
      exact ⟨trivial, hts₃⟩
    · cases h
      exact ⟨trivial, hts⟩

theorem passes_directives : Passes directives :=
  fun ts n rest hts h => passes_directivesIn _ ts n rest hts h

theorem yields_inputValue : Yields inputValue InputValue.Named := by
  intro ts v rest hts h
  unfold inputValue at h
  obtain ⟨n, ts₁, hn, hts₁, h⟩ := yields_name.peel hts.description h
  obtain ⟨_, ts₂, -, hts₂, h⟩ := (passes_mark ':').peel hts₁ h
  obtain ⟨t, ts₃, ht, hts₃, h⟩ := yields_typeExpr.peel hts₂ h
  dsimp only at h
  split_ifs at h
  · obtain ⟨⟨default, ts₄⟩, hdefault, h⟩ := Option.bind_eq_some_iff.1 h
    obtain ⟨⟨x, _⟩, hx, heq⟩ := Option.map_eq_some_iff.1 hdefault
    cases heq
    obtain ⟨_, ts₅, -, hts₅, h⟩ := passes_directives.peel (passes_value false _ _ _ (hts₃.drop 1) hx).2 h
    cases h
    exact ⟨⟨hn, ht⟩, hts₅⟩
  · obtain ⟨_, ts₅, -, hts₅, h⟩ := passes_directives.peel hts₃ h
    cases h
    exact ⟨⟨hn, ht⟩, hts₅⟩

theorem yields_arguments : Yields arguments fun vs => ∀ v ∈ vs, v.Named := by
  intro ts vs rest hts h
  obtain ⟨⟨vs', ts₁⟩, hvs, heq⟩ := Option.map_eq_some_iff.1 h
  cases heq
  exact yields_block? yields_inputValue _ _ _ _ _ hts hvs

theorem yields_field : Yields field Field.Named := by
  intro ts f rest hts h
  unfold field at h
  obtain ⟨n, ts₁, hn, hts₁, h⟩ := yields_name.peel hts.description h
  obtain ⟨vs, ts₂, hvs, hts₂, h⟩ := yields_arguments.peel hts₁ h
  obtain ⟨_, ts₃, -, hts₃, h⟩ := (passes_mark ':').peel hts₂ h
  obtain ⟨t, ts₄, ht, hts₄, h⟩ := yields_typeExpr.peel hts₃ h
  obtain ⟨_, ts₅, -, hts₅, h⟩ := passes_directives.peel hts₄ h
  cases h
  exact ⟨⟨hn, ht, hvs⟩, hts₅⟩

theorem yields_fields : Yields fields fun fs => ∀ f ∈ fs, f.Named := by
  intro ts fs rest hts h
  obtain ⟨⟨fs', ts₁⟩, hfs, heq⟩ := Option.map_eq_some_iff.1 h
  cases heq
  exact yields_block? yields_field _ _ _ _ _ hts hfs

theorem yields_enumValue : Yields enumValue fun v => isName v.name = true := by
  intro ts v rest hts h
  unfold enumValue at h
  obtain ⟨n, ts₁, hn, hts₁, h⟩ := yields_name.peel hts.description h
  obtain ⟨_, ts₂, -, hts₂, h⟩ := passes_directives.peel hts₁ h
  cases h
  exact ⟨hn, hts₂⟩

theorem passes_interfaces : Passes interfaces := by
  intro ts names rest hts h
  unfold interfaces at h
  split_ifs at h
  · exact passes_names _ _ _ _ (hts.drop 1) h
  · cases h
    exact ⟨trivial, hts⟩

/-- What is written of a type after its keyword has names. -/
theorem yields_spelled (keyword : String) : Yields (spelled keyword) fun s => isName s.name = true ∧ s.body.Named := by
  intro ts s rest hts h
  unfold spelled at h
  split at h
  · obtain ⟨n, ts₁, hn, hts₁, h⟩ := yields_name.peel hts h
    obtain ⟨_, ts₂, -, hts₂, h⟩ := passes_directives.peel hts₁ h
    cases h
    exact ⟨⟨hn, trivial⟩, hts₂⟩
  · obtain ⟨n, ts₁, hn, hts₁, h⟩ := yields_name.peel hts h
    obtain ⟨_, ts₂, -, hts₂, h⟩ := passes_interfaces.peel hts₁ h
    obtain ⟨_, ts₃, -, hts₃, h⟩ := passes_directives.peel hts₂ h
    obtain ⟨fs, ts₄, hfs, hts₄, h⟩ := yields_fields.peel hts₃ h
    cases h
    exact ⟨⟨hn, hfs⟩, hts₄⟩
  · obtain ⟨n, ts₁, hn, hts₁, h⟩ := yields_name.peel hts h
    obtain ⟨_, ts₂, -, hts₂, h⟩ := passes_interfaces.peel hts₁ h
    obtain ⟨_, ts₃, -, hts₃, h⟩ := passes_directives.peel hts₂ h
    obtain ⟨fs, ts₄, hfs, hts₄, h⟩ := yields_fields.peel hts₃ h
    cases h
    exact ⟨⟨hn, hfs⟩, hts₄⟩
  · obtain ⟨n, ts₁, hn, hts₁, h⟩ := yields_name.peel hts h
    obtain ⟨_, ts₂, -, hts₂, h⟩ := passes_directives.peel hts₁ h
    dsimp only at h
    split_ifs at h
    · obtain ⟨_, ts₃, -, hts₃, h⟩ := (passes_names '|').peel (hts₂.drop 1) h
      cases h
      exact ⟨⟨hn, trivial⟩, hts₃⟩
    · cases h
      exact ⟨⟨hn, trivial⟩, hts₂⟩
  · obtain ⟨n, ts₁, hn, hts₁, h⟩ := yields_name.peel hts h
    obtain ⟨_, ts₂, -, hts₂, h⟩ := passes_directives.peel hts₁ h
    obtain ⟨vs, ts₃, hvs, hts₃, h⟩ := (yields_block? yields_enumValue _ _).peel hts₂ h
    cases h
    exact ⟨⟨hn, hvs⟩, hts₃⟩
  · obtain ⟨n, ts₁, hn, hts₁, h⟩ := yields_name.peel hts h
    obtain ⟨_, ts₂, -, hts₂, h⟩ := passes_directives.peel hts₁ h
    obtain ⟨vs, ts₃, hvs, hts₃, h⟩ := (yields_block? yields_inputValue _ _).peel hts₂ h
    cases h
    exact ⟨⟨hn, hvs⟩, hts₃⟩
  · cases h

theorem passes_places : Passes places := by
  intro ts found rest hts h
  unfold places at h
  split at h
  · exact passes_names _ _ _ _ hts h
  · exact passes_names _ _ _ _ hts h
  · cases h
    exact ⟨trivial, hts⟩

theorem passes_directive : Passes directive := by
  intro ts x rest hts h
  obtain ⟨_, ts₁, -, hts₁, h⟩ := (passes_mark '@').peel hts h
  obtain ⟨_, ts₂, -, hts₂, h⟩ := yields_name.peel hts₁ h
  obtain ⟨_, ts₃, -, hts₃, h⟩ := yields_arguments.peel hts₂ h
  have hrepeatable : AllNamed (if atWord "repeatable" ts₃ then ts₃.drop 1 else ts₃) := by
    split_ifs
    · exact hts₃.drop 1
    · exact hts₃
  obtain ⟨_, ts₄, -, hts₄, h⟩ := (passes_word "on").peel hrepeatable h
  obtain ⟨_, ts₅, -, hts₅, h⟩ := passes_places.peel hts₄ h
  dsimp only at h
  split_ifs at h
  cases h
  exact ⟨trivial, hts₅⟩

theorem passes_root : Passes root := by
  intro ts x rest hts h
  obtain ⟨_, ts₁, -, hts₁, h⟩ := yields_name.peel hts h
  dsimp only at h
  split_ifs at h
  obtain ⟨_, ts₂, -, hts₂, h⟩ := (passes_mark ':').peel hts₁ h
  obtain ⟨_, ts₃, -, hts₃, h⟩ := yields_name.peel hts₂ h
  cases h
  exact ⟨trivial, hts₃⟩

theorem yields_definition : Yields definition Definition.Named := by
  intro ts d rest hts h
  unfold definition at h
  split at h
  · obtain ⟨_, ts₁, -, hts₁, h⟩ := passes_directives.peel hts.tail h
    obtain ⟨rs, ts₂, -, hts₂, h⟩ := (yields_bracketed passes_root _ _).peel hts₁ h
    obtain ⟨roots, -, h⟩ := Option.bind_eq_some_iff.1 h
    cases h
    exact ⟨trivial, hts₂⟩
  · obtain ⟨keyword, ts₁, -, hts₁, h⟩ := yields_name.peel hts.tail h
    obtain ⟨s, ts₂, -, hts₂, h⟩ := (yields_spelled keyword).peel hts₁ h
    dsimp only at h
    split_ifs at h
    cases h
    exact ⟨trivial, hts₂⟩
  · obtain ⟨keyword, ts₁, -, hts₁, h⟩ := yields_name.peel hts.description h
    dsimp only at h
    split_ifs at h
    · obtain ⟨_, ts₂, -, hts₂, h⟩ := passes_directive.peel hts₁ h
      cases h
      exact ⟨trivial, hts₂⟩
    · obtain ⟨s, ts₂, hs, hts₂, h⟩ := (yields_spelled keyword).peel hts₁ h
      cases h
      exact ⟨⟨hs.1, hs.2⟩, hts₂⟩

theorem named_of_definitions {fuel : Nat} {ts : List Token} (hts : AllNamed ts) {doc : Document}
    (h : definitions fuel ts = some doc) : ∀ d ∈ doc, d.Named := by
  induction fuel generalizing ts doc with
  | zero =>
    cases ts with
    | nil =>
      cases h
      exact fun d hd => absurd hd List.not_mem_nil
    | cons t ts => cases h
  | succ fuel ih =>
    cases ts with
    | nil =>
      cases h
      exact fun d hd => absurd hd List.not_mem_nil
    | cons t ts =>
      obtain ⟨d, ts₁, hd, hts₁, h⟩ := yields_definition.peel hts h
      obtain ⟨rest, hrest, h⟩ := Option.bind_eq_some_iff.1 h
      cases h
      exact List.forall_mem_cons.2 ⟨hd, ih hts₁ hrest⟩

end Grammar

/-- All type definitions of a document, and all that they say, have names of GraphQL. -/
theorem Document.named_of_read {text : String} {doc : Document} (h : Document.read text = some doc) :
    ∀ t ∈ typeDefs doc, t.Named := by
  obtain ⟨ts, hts, h⟩ := Option.bind_eq_some_iff.1 h
  obtain ⟨doc', hdoc, h⟩ := Option.bind_eq_some_iff.1 h
  split_ifs at h
  cases h
  intro t ht
  obtain ⟨d, hd, heq⟩ := List.mem_filterMap.1 ht
  have hnamed := Grammar.named_of_definitions (Token.named_of_scan hts) hdoc d hd
  cases d with
  | type u =>
    cases heq
    exact hnamed
  | _ => cases heq

end SdkLoom.Sdl

namespace SdkLoom

/-! ## Schemas of documents -/

/-- A reference has a name of GraphQL inside of all wrappers. -/
def TypeRef.Named (r : TypeRef) : Prop := ∃ n, r.leaf.name = some n ∧ Sdl.isName n = true

/-- A field, its arguments and the types of all these have names of GraphQL. -/
structure FieldDef.Named (f : FieldDef) : Prop where
  name : Sdl.isName f.name = true
  type : f.type.Named
  args : ∀ v ∈ f.args, Sdl.isName v.name = true ∧ v.type.Named

/-- The fields of a definition and all that they say have names of GraphQL, and so have its input fields. -/
structure TypeDef.MembersNamed (t : TypeDef) : Prop where
  fields : ∀ f ∈ t.fields.getD [], f.Named
  inputFields : ∀ v ∈ t.inputFields.getD [], Sdl.isName v.name = true

namespace Sdl

theorem TypeExpr.named_of_toRef {defs : List TypeDef} {e : TypeExpr} {r : TypeRef} (h : e.toRef defs = .ok r)
    (he : isName e.baseName = true) : r.Named := by
  obtain ⟨kind, -, hwraps⟩ := e.wraps_of_toRef h
  exact ⟨e.baseName, by rw [hwraps.leaf_eq]; rfl, he⟩

theorem Field.Named.convert {defs : List TypeDef} {f : Field} {f' : FieldDef} (hf : f.Named)
    (h : f.convert defs = .ok f') : f'.Named := by
  obtain ⟨args, hargs, h⟩ := bind_eq_ok_iff.1 h
  obtain ⟨type, htype, h⟩ := bind_eq_ok_iff.1 h
  cases h
  refine ⟨hf.name, TypeExpr.named_of_toRef htype hf.type, fun v hv => ?_⟩
  obtain ⟨w, hw, hconvert⟩ := exists_rel_of_mem_right (forall₂_of_mapM_eq_ok hargs) hv
  obtain ⟨hname, href⟩ := InputValue.convert_eq_ok hconvert
  have hnamed := hf.args w hw
  exact ⟨hname ▸ hnamed.name, TypeExpr.named_of_toRef href hnamed.type⟩

theorem TypeDef.Named.convert {defs : List TypeDef} {t : TypeDef} {t' : SdkLoom.TypeDef} (ht : t.Named)
    (h : t.convert defs = .ok t') : t'.MembersNamed := by
  have hnone : ∀ {α : Type} {P : α → Prop}, ∀ a ∈ ([] : List α), P a := fun a ha => absurd ha List.not_mem_nil
  have hfields : ∀ {fs : List Field} {fs' : List FieldDef}, (∀ f ∈ fs, f.Named) → fs.mapM (Field.convert defs) = .ok fs' →
      ∀ f ∈ fs', f.Named := by
    intro fs fs' hfs hmap f hf
    obtain ⟨g, hg, hconvert⟩ := exists_rel_of_mem_right (forall₂_of_mapM_eq_ok hmap) hf
    exact (hfs g hg).convert hconvert
  obtain ⟨description, name, body⟩ := t
  cases body with
  | object fs =>
    obtain ⟨fs', hfs, h⟩ := bind_eq_ok_iff.1 h
    cases h
    exact ⟨hfields ht.body hfs, hnone⟩
  | interface fs =>
    obtain ⟨fs', hfs, h⟩ := bind_eq_ok_iff.1 h
    cases h
    exact ⟨hfields ht.body hfs, hnone⟩
  | input vs =>
    obtain ⟨vs', hvs, h⟩ := bind_eq_ok_iff.1 h
    cases h
    refine ⟨hnone, fun v hv => ?_⟩
    obtain ⟨w, hw, hconvert⟩ := exists_rel_of_mem_right (forall₂_of_mapM_eq_ok hvs) hv
    have hname := (InputValue.convert_eq_ok hconvert).1
    exact hname ▸ (ht.body w hw).name
  | _ =>
    cases h
    exact ⟨hnone, hnone⟩

end Sdl

/-- The schema of a text is that of the document which is read from it. -/
theorem Schema.exists_document {text : String} {s : Schema} (h : Schema.ofSdl text = .ok s) :
    ∃ doc, Sdl.Document.read text = some doc ∧ Schema.ofDocument doc = .ok s := by
  unfold Schema.ofSdl at h
  split at h
  next doc hdoc => exact ⟨doc, hdoc, h⟩
  next => cases h

/-- The schema of a text is coherent. -/
theorem Schema.coherent_ofSdl {text : String} {s : Schema} (h : Schema.ofSdl text = .ok s) : s.Coherent := by
  obtain ⟨doc, -, hdoc⟩ := Schema.exists_document h
  exact Schema.coherent_ofDocument hdoc

/-- The fields and input fields of all types of a text's schema have names of GraphQL. -/
theorem Schema.named_of_ofSdl {text : String} {s : Schema} (h : Schema.ofSdl text = .ok s) {t : TypeDef} (ht : t ∈ s.types) :
    t.MembersNamed := by
  obtain ⟨doc, hread, hdoc⟩ := Schema.exists_document h
  obtain ⟨types, hconvert, htypes⟩ := Schema.ofDocument_eq_ok hdoc
  rw [htypes] at ht
  rcases List.mem_append.1 ht with ht | ht
  · obtain ⟨u, hu, hut⟩ := exists_rel_of_mem_right hconvert ht
    exact (Sdl.Document.named_of_read hread u hu).convert hut
  · obtain ⟨n, -, rfl⟩ := List.mem_map.1 ht
    exact ⟨fun f hf => absurd hf List.not_mem_nil, fun v hv => absurd hv List.not_mem_nil⟩

/-- The fields of the roots of a text's schema have names of GraphQL. -/
theorem Schema.rootNamed_ofSdl {text : String} {s : Schema} (h : Schema.ofSdl text = .ok s) {f : FieldDef}
    (hf : f ∈ s.queryFields ++ s.mutationFields) : f.Named := by
  obtain ⟨t, ht, hf⟩ := Schema.exists_of_mem_fields hf
  exact (Schema.named_of_ofSdl h (Schema.mem_types_of_index ht)).fields f hf

/-- The schema of a text is well named. -/
theorem Schema.wellNamed_ofSdl {text : String} {s : Schema} (h : Schema.ofSdl text = .ok s) : s.WellNamed := by
  refine { operations := ?_, arguments := ?_, types := ?_ }
  · intro f hf
    exact (Schema.rootNamed_ofSdl h hf).name
  · intro f hf v hv
    exact ((Schema.rootNamed_ofSdl h hf).args v hv).1
  · intro f hf v hv n hn
    obtain ⟨m, hm, hname⟩ := ((Schema.rootNamed_ofSdl h hf).args v hv).2
    rw [hm] at hn
    cases hn
    exact hname

/-- A method, its arguments and the type of its result have names of GraphQL. -/
structure Method.Named (m : Method) : Prop where
  name : Sdl.isName m.name = true
  args : ∀ n ∈ OrderedMap.keys m.args, Sdl.isName n = true
  result : Sdl.isName m.returnType.gqlType = true

/-- The operations of a document's client, their arguments and the types of their results have names of GraphQL. -/
theorem Definition.named_of_ofSdl {text : String} {s : Schema} {ignored : IgnoreList} {d : Definition} {op : Operation}
    (hs : Schema.ofSdl text = .ok s) (hd : Definition.ofSchema s ignored = .ok d) (hop : op ∈ d.catalog.operations) :
    op.method.Named := by
  obtain ⟨r, hr, -, hmethod⟩ := Definition.rootField_of_mem_operations hd hop
  have hfield : r.field.Named := Schema.rootNamed_ofSdl hs hr
  rw [hmethod]
  refine ⟨hfield.name, fun n hn => ?_, ?_⟩
  · obtain ⟨e, he, rfl⟩ := List.mem_map.1 hn
    obtain ⟨v, hv, rfl⟩ := List.mem_map.1 (OrderedMap.mem_of_mem_ofEntries he)
    exact (hfield.args v hv).1
  · obtain ⟨n, hleaf, hn⟩ := hfield.type
    have hname := (s.index.describeRef_core r.field.type).1
    rw [hleaf] at hname
    exact hname ▸ hn

end SdkLoom
