import SdkLoom.Proofs.TypesImport

/-!
# Parameters of methods

A method declares its receiver, its parameters and the variables of its body in one scope. An argument whose name is a
keyword, or one that the method declares by itself, becomes a parameter with an underscore added, so no parameter is a keyword
or meets a name of the method. But the underscore is added without a look at the other arguments: the parameters of two
arguments meet exactly if one is named like the other with an underscore after it, and the other is renamed
(`params_distinct_iff`).
-/

namespace SdkLoom.Go

/-! ## Scopes -/

/-- The variable that a statement declares. -/
def Statement.declared? : Statement → Option String
  | .define name _ => some name
  | .declare name _ => some name
  | .results _ => none

namespace FunctionDecl

/-- The names of the parameters. -/
def paramNames (f : FunctionDecl) : List String := f.params.map Prod.fst

/-- The names that a function declares: its receiver, its parameters, and the variables of its body. -/
def scope (f : FunctionDecl) : List String := f.receiver.1 :: f.paramNames ++ f.body.filterMap Statement.declared?

end FunctionDecl

/-! ## Names that parameters may not have -/

/-- The words of the grammar: of declarations, of types, and of statements. -/
def grammarWords : List String :=
  ["package", "import", "const", "type", "var", "func"] ++ ["struct", "interface", "map", "chan"] ++
    ["if", "else", "switch", "case", "default", "for", "range", "break", "continue", "goto", "fallthrough", "return",
      "select", "go", "defer"]

/-- The names that every method declares beside the parameters of its arguments. -/
def ownNames : List String := ["ctx", "err", "meta", "request", "response", "s", "selections"]

/-- A name that no parameter may have: a word of the grammar, or a name that the method declares by itself. -/
def Taken (n : String) : Prop := n ∈ grammarWords ∨ n ∈ ownNames

theorem taken_iff (n : String) : Taken n ↔ n ∈ keywords ++ methodNames := by
  have hwords : grammarWords.Perm keywords := by decide
  rw [Taken, hwords.mem_iff, List.mem_append]
  rfl

theorem param_of_taken {n : String} (h : Taken n) : param n = n ++ "_" :=
  if_pos (List.contains_iff_mem.2 ((taken_iff n).1 h))

theorem param_of_not_taken {n : String} (h : ¬ Taken n) : param n = n :=
  if_neg fun hcontains => h ((taken_iff n).2 (List.contains_iff_mem.1 hcontains))

/-- No taken name ends with an underscore. -/
theorem not_taken_append (n : String) : ¬ Taken (n ++ "_") := by
  intro h
  have hlast : (n ++ "_").toList.getLast? = some '_' := by simp
  have hnone : ∀ w ∈ keywords ++ methodNames, w.toList.getLast? ≠ some '_' := by decide
  exact hnone _ ((taken_iff _).1 h) hlast

/-- The parameter of an argument has no taken name, whatever the name of the argument is. -/
theorem not_taken_param (n : String) : ¬ Taken (param n) := by
  by_cases hn : Taken n
  · rw [param_of_taken hn]
    exact not_taken_append n
  · rw [param_of_not_taken hn]
    exact hn

/-- Two arguments have the same parameter exactly if they have the same name, or the name of one is taken and that of the
other has an underscore more. -/
theorem param_eq_iff (a b : String) :
    param a = param b ↔ a = b ∨ (Taken a ∧ b = a ++ "_") ∨ (Taken b ∧ a = b ++ "_") := by
  by_cases ha : Taken a <;> by_cases hb : Taken b
  · have hne : ∀ {x y : String}, Taken x → x ≠ y ++ "_" := fun hx heq => not_taken_append _ (heq ▸ hx)
    simp [param_of_taken ha, param_of_taken hb, hne ha, hne hb]
  · rw [param_of_taken ha, param_of_not_taken hb]
    constructor
    · exact fun heq => .inr (.inl ⟨ha, heq.symm⟩)
    · rintro (rfl | ⟨-, heq⟩ | ⟨hb', -⟩)
      · exact absurd ha hb
      · exact heq.symm
      · exact absurd hb' hb
  · rw [param_of_not_taken ha, param_of_taken hb]
    constructor
    · exact fun heq => .inr (.inr ⟨hb, heq⟩)
    · rintro (rfl | ⟨ha', -⟩ | ⟨-, heq⟩)
      · exact absurd hb ha
      · exact absurd ha' ha
      · exact heq
  · simp [param_of_not_taken ha, param_of_not_taken hb, ha, hb]

/-- No argument has the name that a parameter with a taken name gets instead. -/
def ParamsApart (names : List String) : Prop := ∀ n, Taken n → n ∈ names → n ++ "_" ∉ names

/-- The parameters of distinct arguments are distinct exactly if no argument has the name that one of them gets instead. -/
theorem nodup_map_param_iff {names : List String} (h : names.Nodup) : (names.map param).Nodup ↔ ParamsApart names := by
  rw [List.nodup_map_iff_inj_on h]
  simp only [param_eq_iff]
  constructor
  · intro hinj n hn hmem hmem'
    have heq := hinj n hmem _ hmem' (.inr (.inl ⟨hn, rfl⟩))
    exact not_taken_append n (heq ▸ hn)
  · rintro hapart a ha b hb (heq | ⟨hn, rfl⟩ | ⟨hn, rfl⟩)
    · exact heq
    · exact absurd hb (hapart a hn ha)
    · exact absurd ha (hapart b hn hb)

/-- The parameters of arguments and the names of the method are distinct exactly if the parameters of the arguments are. -/
theorem nodup_params_append_iff (names : List String) {own : List String} (hown : own.Nodup) (hsub : own ⊆ ownNames) :
    (names.map param ++ own).Nodup ↔ (names.map param).Nodup := by
  rw [List.nodup_append]
  refine ⟨fun h => h.1, fun h => ⟨h, hown, ?_⟩⟩
  rintro p hp q hq rfl
  obtain ⟨n, -, rfl⟩ := List.mem_map.1 hp
  exact not_taken_param n (.inr (hsub hq))

/-! ## The scope of a method -/

theorem paramNames_ofOperation (ps : Primitives) (op : Operation) :
    (MethodDecl.ofOperation ps op).function.paramNames =
      ["ctx"] ++ (OrderedMap.keys op.method.args).map param ++ ["selections"] := by
  simp [FunctionDecl.paramNames, MethodDecl.function, MethodDecl.ofOperation, OrderedMap.keys, Function.comp_def]

theorem scope_ofOperation (ps : Primitives) (op : Operation) :
    (MethodDecl.ofOperation ps op).function.scope =
      ["s", "ctx"] ++ (OrderedMap.keys op.method.args).map param ++ ["selections", "request", "meta", "response", "err"] := by
  rw [FunctionDecl.scope, paramNames_ofOperation]
  simp [MethodDecl.function, Statement.declared?]

/-- The method of an operation is written as a function whose parameters are the context, one for each argument, and the
selections. Beside the parameters of the arguments it declares the seven names of every method. None of these parameters is a
word of the grammar or one of the seven names. Where the names of the arguments are distinct, the parameters are distinct, and
so are all names that the function declares, exactly if no argument has the name that a renamed one gets. -/
theorem params_distinct_iff (ps : Primitives) (op : Operation) (h : (OrderedMap.keys op.method.args).Nodup) :
    (MethodDecl.ofOperation ps op).function.text = (MethodDecl.ofOperation ps op).functionText ∧
    (MethodDecl.ofOperation ps op).function.paramNames =
      ["ctx"] ++ (OrderedMap.keys op.method.args).map param ++ ["selections"] ∧
    (MethodDecl.ofOperation ps op).function.scope.Perm ((OrderedMap.keys op.method.args).map param ++ ownNames) ∧
    (∀ n, param n ∉ grammarWords ∧ param n ∉ ownNames) ∧
    ((MethodDecl.ofOperation ps op).function.paramNames.Nodup ↔ ParamsApart (OrderedMap.keys op.method.args)) ∧
    ((MethodDecl.ofOperation ps op).function.scope.Nodup ↔ ParamsApart (OrderedMap.keys op.method.args)) := by
  generalize hnames : OrderedMap.keys op.method.args = names at h
  have hparams := paramNames_ofOperation ps op
  have hscope := scope_ofOperation ps op
  rw [hnames] at hparams hscope
  have hperm : (MethodDecl.ofOperation ps op).function.scope.Perm (names.map param ++ ownNames) := by
    have hown : (["s", "ctx"] ++ ["selections", "request", "meta", "response", "err"]).Perm ownNames := by decide
    rw [hscope, List.append_assoc]
    refine (List.perm_append_comm_assoc ..).trans (.append_left _ ?_)
    exact hown
  have hperm' : (["ctx"] ++ names.map param ++ ["selections"]).Perm (names.map param ++ ["ctx", "selections"]) := by
    rw [List.append_assoc]
    exact List.perm_append_comm_assoc ..
  refine ⟨MethodDecl.text_function _, hparams, hperm, fun n => not_or.1 (not_taken_param n), ?_, ?_⟩
  · rw [hparams, hperm'.nodup_iff, nodup_params_append_iff names (by decide) (by decide), nodup_map_param_iff h]
  · rw [hperm.nodup_iff, nodup_params_append_iff names (by decide) fun _ hn => hn, nodup_map_param_iff h]

/-- A document with an operation two of whose arguments are renamed. -/
def findText : String := "type Query \x7b find(type: String, s: Int, name: ID!): Int \x7d"

/-- The renamed arguments meet no other, so the method declares nothing twice. -/
theorem find_params_distinct :
    ∃ s d op, Schema.ofSdl findText = .ok s ∧ Definition.ofSchema s IgnoreList.builtin = .ok d ∧ op ∈ d.catalog.operations ∧
      (MethodDecl.ofOperation Target.goTarget.primitives op).function.paramNames =
        ["ctx", "type_", "s_", "name", "selections"] ∧
      (MethodDecl.ofOperation Target.goTarget.primitives op).function.scope.Nodup := by
  have htest : definesWith (fun d => decide (∃ op ∈ d.catalog.operations,
      OrderedMap.keys op.method.args = ["type", "s", "name"])) findText = true := by decide +kernel
  obtain ⟨s, d, hs, hd, htest⟩ := exists_of_definesWith htest
  obtain ⟨op, hop, hnames⟩ := of_decide_eq_true htest
  obtain ⟨-, hparams, -, -, -, hscope⟩ := params_distinct_iff Target.goTarget.primitives op (hnames ▸ by decide)
  have hapart : ParamsApart (OrderedMap.keys op.method.args) := by
    rw [hnames]
    intro n _ hn
    have hall : ∀ n ∈ ["type", "s", "name"], n ++ "_" ∉ ["type", "s", "name"] := by decide
    exact hall n hn
  refine ⟨s, d, op, hs, hd, hop, ?_, hscope.2 hapart⟩
  rw [hparams, hnames]
  decide

/-- A document with an operation one of whose arguments has the name that the other gets instead of its own. -/
def retypedText : String := "type Query \x7b find(type: String, type_: String): Int \x7d"

/-- The arguments have distinct names, and the method has two parameters of one name. -/
theorem retyped_params_clash :
    ∃ s d op, Schema.ofSdl retypedText = .ok s ∧ Definition.ofSchema s IgnoreList.builtin = .ok d ∧
      op ∈ d.catalog.operations ∧ (OrderedMap.keys op.method.args).Nodup ∧
      (∀ n ∈ OrderedMap.keys op.method.args, Sdl.isName n = true) ∧
      (MethodDecl.ofOperation Target.goTarget.primitives op).function.paramNames = ["ctx", "type_", "type_", "selections"] ∧
      ¬ (MethodDecl.ofOperation Target.goTarget.primitives op).function.paramNames.Nodup := by
  have htest : definesWith (fun d => decide (∃ op ∈ d.catalog.operations,
      OrderedMap.keys op.method.args = ["type", "type_"])) retypedText = true := by decide +kernel
  obtain ⟨s, d, hs, hd, htest⟩ := exists_of_definesWith htest
  obtain ⟨op, hop, hnames⟩ := of_decide_eq_true htest
  have hparams : (MethodDecl.ofOperation Target.goTarget.primitives op).function.paramNames =
      ["ctx", "type_", "type_", "selections"] := by
    rw [paramNames_ofOperation, hnames]
    decide
  refine ⟨s, d, op, hs, hd, hop, hnames ▸ by decide, hnames ▸ by decide, hparams, ?_⟩
  rw [hparams]
  decide

end SdkLoom.Go
