import SdkLoom.Proofs.GoLiterals
import SdkLoom.Proofs.TemplateVariables
import SdkLoom.Synthesis

/-!
# The two places of a module's path

Two files of a Go package tell the module that it is: the module file has it printed after its keyword, and the client
imports the package of types from below it. Both take it from the package name among the variables and have the same name to
fall back on. But the module file falls back where the package name does not count as true, and the client where it is no
text. So they agree if there is no package name or if it is a text that is not empty, and they differ if it is the empty text
or some other value that counts as true (`module_paths_agree_iff`).
-/

namespace SdkLoom

namespace Go

/-! ## What a client imports -/

/-- A client that imports the package of types imports it from one path. -/
theorem Imports.path_eq {file p q : String} (hp : Imports file [["context"], [p]]) (hq : Imports file [["context"], [q]]) :
    p = q := by
  obtain ⟨rest, hrest⟩ := hp
  obtain ⟨rest', hrest'⟩ := hq
  rw [hrest, importDecl_path, importDecl_path] at hrest'
  simp only [String.append_assoc, String.append_right_inj] at hrest'
  exact stringLiteral_append_inj hrest'

/-! ## What a module file prints -/

/-- The text of a module file. The module is all that is printed after the keyword, which may have blanks and newlines in it,
and not what the tools of the language read there. -/
def moduleFile (module : String) : String := "module " ++ module ++ "\n\ngo 1.21\n"

/-- The module that is printed into the module file for a package name. -/
def declaredModule (name : Option Json) : String :=
  (name.filter (Template.truthy false)).elim defaultModule Template.valueText

end Go

/-! ## Rendering the module file -/

namespace Template

/-- The place of the package name among the variables. -/
def packageNameArg : Argument := .path "packageName" (.context 0 ["packageName"])

/-- The part of the module file that shows the package name, if it counts as true. -/
def packageNameNode : Node :=
  .block ⟨"if", [packageNameArg], []⟩ [] [.text "", .value packageNameArg, .text ""] (some [.text Go.defaultModule])

theorem read_goModule :
    read BuiltinTemplates.goModule = some [.text "module ", packageNameNode, .text "\n\ngo 1.21\n"] := by rfl

section Variables

variable (included : List Node → Body) (members : List (String × Json))

theorem eval_packageNameArg :
    packageNameArg.eval (.ofData (.obj members)) =
      .ok ((SortedMap.findEntry "packageName" members).map fun v => ⟨v, some ["packageName"]⟩) := by
  have hplace : packageNameArg.eval (.ofData (.obj members)) = (Scope.ofData (.obj members)).atPlace ["packageName"] := by
    rw [packageNameArg, Argument.eval]
    rfl
  rw [hplace, Scope.atPlace]
  cases hfind : SortedMap.findEntry "packageName" members <;>
    simp [Scope.ofData, navigate, step?, hfind, bind, Except.bind, pure, Except.pure]

/-- Nodes that each show a text show one text after the other. -/
theorem renderAll_cons_eq_text {scope : Scope} {n : Node} {rest : List Node} {s t : String}
    (hn : n.render included scope = .text s) (hrest : Node.renderAll included scope rest = .text t) :
    Node.renderAll included scope (n :: rest) = .text (s ++ t) := by
  funext lib
  rw [Node.renderAll, hn, hrest]
  rfl

theorem render_text (s : String) : (Node.text s).render included (.ofData (.obj members)) = .text s := by
  rw [Node.render]
  rfl

theorem render_value {v : Json} (hv : SortedMap.findEntry "packageName" members = some v) :
    (Node.value packageNameArg).render included (.ofData (.obj members)) = .text (valueText v) := by
  have hshow : (Node.value packageNameArg).render included (.ofData (.obj members)) = fun lib => do
      return ((← packageNameArg.textIn (.ofData (.obj members))), lib) := by
    rw [Node.render]
    rfl
  funext lib
  rw [hshow, Argument.textIn, eval_packageNameArg, hv]
  rfl

/-- A condition on the package name renders its first body if the package name counts as true, and else its second. -/
theorem render_ifPackageName (body inverse : List Node) :
    (Node.block ⟨"if", [packageNameArg], []⟩ [] body (some inverse)).render included (.ofData (.obj members)) =
      Node.renderAll included (.ofData (.obj members))
        (if (SortedMap.findEntry "packageName" members).any (truthy false) then body else inverse) := by
  funext lib
  rw [Node.render, Call.run, Argument.evalAll, eval_packageNameArg, Argument.evalAll, Argument.evalNamed]
  cases SortedMap.findEntry "packageName" members with
  | none => rfl
  | some v =>
    change Body.run _ (if truthy false v == true then _ else _) lib = Node.renderAll _ _ (if truthy false v = true then _ else _) lib
    cases truthy false v <;> rfl

/-- The part shows the package name if it counts as true. -/
theorem render_packageNameNode :
    packageNameNode.render included (.ofData (.obj members)) =
      .text (Go.declaredModule (SortedMap.findEntry "packageName" members)) := by
  have hlast : ∀ s, Node.renderAll included (.ofData (.obj members)) [.text s] = .text s := by
    intro s
    have hnone : Node.renderAll included (.ofData (.obj members)) [] = .text "" := by rw [Node.renderAll]
    rw [renderAll_cons_eq_text included (render_text included members s) hnone, String.append_empty]
  rw [packageNameNode, render_ifPackageName]
  cases hname : SortedMap.findEntry "packageName" members with
  | none => exact hlast _
  | some v =>
    cases hv : truthy false v with
    | false =>
      rw [Option.any_some, hv, if_neg Bool.false_ne_true, hlast, Go.declaredModule, Option.filter_some, hv]
      rfl
    | true =>
      have hvalue := renderAll_cons_eq_text included (render_value included members hname) (hlast "")
      rw [Option.any_some, hv, if_pos rfl, renderAll_cons_eq_text included (render_text included members "") hvalue,
        Go.declaredModule, Option.filter_some, hv, String.empty_append, String.append_empty]
      rfl

/-- The text of the module file of a package. -/
theorem render_goModule :
    render BuiltinTemplates.goModule (.obj members) =
      some (Go.moduleFile (Go.declaredModule (SortedMap.findEntry "packageName" members))) := by
  have hnodes : renderIn depthLimit [.text "module ", packageNameNode, .text "\n\ngo 1.21\n"] (.ofData (.obj members)) =
      .text ("module " ++ (Go.declaredModule (SortedMap.findEntry "packageName" members) ++ ("\n\ngo 1.21\n" ++ ""))) := by
    have hnone : Node.renderAll (renderIn 499) (.ofData (.obj members)) [] = .text "" := by rw [Node.renderAll]
    refine renderAll_cons_eq_text _ (render_text _ members _) ?_
    refine renderAll_cons_eq_text _ (render_packageNameNode _ members) ?_
    exact renderAll_cons_eq_text _ (render_text _ members _) hnone
  rw [render, read_goModule, Option.bind_eq_bind, Option.bind_some, hnodes, String.append_empty, ← String.append_assoc]
  rfl

end Variables

end Template

/-! ## Names that no other value shows as -/

theorem Decimal.point_mem_positional (d : Decimal.Digits) : '.' ∈ (Decimal.positional d ".0").toList := by
  unfold Decimal.positional
  dsimp only
  split
  · simp
  · split <;> simp

theorem Decimal.exponent_mem_scientific (d : Decimal.Digits) : 'e' ∈ (Decimal.scientific d).toList := by
  unfold Decimal.scientific
  dsimp only
  split <;> split <;> simp

theorem Decimal.exists_mark (plain : Bool) (d : Decimal.Digits) :
    '.' ∈ (if plain then Decimal.positional d ".0" else Decimal.scientific d).toList ∨
      'e' ∈ (if plain then Decimal.positional d ".0" else Decimal.scientific d).toList := by
  cases plain with
  | false => exact .inr (Decimal.exponent_mem_scientific d)
  | true => exact .inl (Decimal.point_mem_positional d)

/-- The letters of the default module are not all of the text of a number. -/
theorem Json.Number.text_ne_defaultModule (n : Json.Number) : n.text ≠ Go.defaultModule := by
  have hother : ∀ {s : String} (c : Char), c ∈ s.toList → c ∉ Go.defaultModule.toList → s ≠ Go.defaultModule := by
    rintro s c hs hc rfl
    exact hc hs
  cases n with
  | int i =>
    cases i with
    | ofNat n =>
      intro h
      have hs : 's' ∈ Nat.toDigits 10 n := by
        rw [← Nat.toList_repr, show n.repr = Go.defaultModule from h]
        decide
      exact absurd (Nat.isDigit_of_mem_toDigits (by decide) (by decide) hs) (by decide)
    | negSucc n =>
      refine hother '-' ?_ (by decide)
      rw [show (Number.int (Int.negSucc n)).text = "-" ++ (n + 1).repr from rfl]
      simp
  | float x =>
    cases x with
    | nan => decide
    | infinite s => cases s <;> decide
    | finite s m e =>
      rw [Number.text, Decimal.Layout.text]
      by_cases hm : m = 0
      · exact hother '.' (by simp [hm, numberLayout]) (by decide)
      · rw [if_neg hm]
        rcases Decimal.exists_mark _ (Decimal.shortest m e) with hmark | hmark
        · exact hother '.' (String.toList_append ▸ List.mem_append_right _ hmark) (by decide)
        · exact hother 'e' (String.toList_append ▸ List.mem_append_right _ hmark) (by decide)

theorem Template.valueText_ne_defaultModule {v : Json} (hv : ∀ s, v ≠ .str s) : Template.valueText v ≠ Go.defaultModule := by
  cases v with
  | fault e => exact e.elim
  | null => decide
  | bool b => cases b <;> decide
  | num n => exact Json.Number.text_ne_defaultModule n
  | str s => exact absurd rfl (hv s)
  | arr items =>
    intro h
    have hbracket : '[' ∈ Go.defaultModule.toList := by
      rw [← h, Template.valueText]
      simp
    exact absurd hbracket (by decide)
  | obj members =>
    rw [Template.valueText]
    decide

namespace Go

/-! ## Where the paths agree -/

/-- A package name by which the module file and the client give the same module: none, a text that is not empty, or a value
that is no text and does not count as true. -/
def ModuleAgrees : Option Json → Prop
  | none => True
  | some (.str s) => s ≠ ""
  | some v => Template.truthy false v = false

theorem declaredModule_eq_moduleName_iff (vars : Json) :
    declaredModule (vars.member? "packageName") = moduleName vars ↔ ModuleAgrees (vars.member? "packageName") := by
  unfold moduleName
  split
  next name hname =>
    rw [hname, declaredModule, ModuleAgrees, Option.filter_some, Template.truthy]
    by_cases hempty : name = ""
    · subst hempty
      decide
    · have htrue : (!name.isEmpty) = true := by simpa using hempty
      rw [htrue]
      exact iff_of_true rfl hempty
  next hother =>
    cases hname : vars.member? "packageName" with
    | none => exact iff_of_true rfl trivial
    | some v =>
      have hv : ∀ s, v ≠ .str s := fun s hs => hother s (hname.trans (congrArg some hs))
      have hagrees : ModuleAgrees (some v) ↔ Template.truthy false v = false := by
        unfold ModuleAgrees
        split
        · contradiction
        next s hs => exact absurd (Option.some.inj hs) (hv s)
        next v' _ hs => rw [Option.some.inj hs]
      rw [hagrees, declaredModule, Option.filter_some]
      cases Template.truthy false v with
      | false => exact iff_of_true rfl rfl
      | true => exact iff_of_false (Template.valueText_ne_defaultModule hv) (by decide)

theorem typesImport_inj {a b : String} : Package.typesImport a = Package.typesImport b ↔ a = b := by
  unfold Package.typesImport
  simp

/-! ## The files of a package -/

/-- The files of the Go package of a definition, with the variables of a configuration. -/
def packageFiles (c : Config) (d : Definition) (tree : FileTree) : FileSet :=
  d.synthesize Target.goTarget (c.templateData d Target.goTarget tree)

section Package

variable (c : Config) (d : Definition) (tree : FileTree)

theorem get?_packageFiles_module :
    (packageFiles c d tree).get? "go.mod" = some (.rendered (c.templateData d Target.goTarget tree)) := by
  simp [packageFiles, Definition.synthesize, Target.templateFiles, Target.sourceFiles, Target.goTarget, Package.files,
    SortedMap.get?_ofList_cons, SortedMap.get?_ofList_nil]

theorem text?_packageFiles_client :
    (packageFiles c d tree).text? "cmd/main/sdk.go" =
      some ((Package.ofDefinition d Target.goTarget.primitives).clientFile
        (moduleName (c.templateData d Target.goTarget tree))) := by
  have hget : (packageFiles c d tree).get? "cmd/main/sdk.go" =
      some (.text ((Package.ofDefinition d Target.goTarget.primitives).clientFile
        (moduleName (c.templateData d Target.goTarget tree)))) := by
    simp [packageFiles, Definition.synthesize, Target.templateFiles, Target.sourceFiles, Target.goTarget, Package.files,
      SortedMap.get?_ofList_cons, SortedMap.get?_ofList_nil]
  rw [FileSet.text?, hget]

/-- The module file can always be rendered. -/
theorem resolve_packageFiles_module :
    FileContent.resolve ⟨"go.mod", .ofTarget none Target.goTarget, tree⟩
      (.rendered (c.templateData d Target.goTarget tree)) =
        .ok (moduleFile (declaredModule ((c.templateData d Target.goTarget tree).member? "packageName"))) := by
  have htemplate : TemplateStore.read tree (.ofTarget none Target.goTarget) ("go.mod" ++ ".hbs") =
      .ok BuiltinTemplates.goModule := rfl
  rw [FileContent.rendered, FileContent.resolve, FileScope.render, TemplateStore.render, htemplate, Config.templateData,
    Json.ofMap, Json.member?]
  simp only [bind, Except.bind, Template.render_goModule]

/-- The package name of the templates: a variable of the configuration comes before the setting. -/
theorem member?_packageName :
    (c.templateData d Target.goTarget tree).member? "packageName" =
      (c.vars.get? "packageName").or (c.packageName.map .str) := by
  have hdefinition : VarRule.value? c d Target.goTarget (c.versionFor Target.goTarget tree) "packageName" .definition = none := by
    rw [VarRule.value?, if_neg (by decide)]
  rw [Config.member?_templateData, VarRule.findSome?_all, hdefinition]
  exact congrArg ((c.vars.get? "packageName").or ·) (Option.or_none ..)

end Package

/-- The module file of a Go package can be rendered, and has a text printed after its keyword as the module. The client imports
the package of types from one path or not at all, and the path is that text with the path of the types after it exactly if the
package name is not given, is a text that is not empty, or is no text and does not count as true. This is about the texts as
they are printed, not about what the tools of the language read in the two places. -/
theorem module_paths_agree_iff (c : Config) (d : Definition) (tree : FileTree) :
    ∃ content module client,
      (packageFiles c d tree).get? "go.mod" = some content ∧
      content.resolve ⟨"go.mod", .ofTarget none Target.goTarget, tree⟩ = .ok (moduleFile module) ∧
      (packageFiles c d tree).text? "cmd/main/sdk.go" = some client ∧
      (Imports client [["context"]] ∨ ∃ path, Imports client [["context"], [path]]) ∧
      ∀ path, Imports client [["context"], [path]] →
        (path = module ++ "/cmd/main/types" ↔ ModuleAgrees ((c.vars.get? "packageName").or (c.packageName.map .str))) := by
  obtain ⟨hwith, hwithout⟩ := (Package.ofDefinition d Target.goTarget.primitives).imports_clientFile
    (moduleName (c.templateData d Target.goTarget tree))
  refine ⟨_, _, _, get?_packageFiles_module c d tree, resolve_packageFiles_module c d tree,
    text?_packageFiles_client c d tree, ?_, fun path himports => ?_⟩
  · by_cases hmentions : mentions (Package.ofDefinition d Target.goTarget.primitives).methodsText = true
    · exact .inr ⟨_, hwith.2 hmentions⟩
    · exact .inl (hwithout.2 hmentions)
  · have hmentions : mentions (Package.ofDefinition d Target.goTarget.primitives).methodsText = true := by
      by_contra hmentions
      exact not_imports_both himports (hwithout.2 hmentions)
    have hpath := himports.path_eq (hwith.2 hmentions)
    rw [← member?_packageName c d tree, ← declaredModule_eq_moduleName_iff, hpath]
    exact typesImport_inj.trans eq_comm

/-- A configuration with a package name. -/
def namedConfig (name : String) : Config := { Config.empty with packageName := some name }

/-- The client of the shapes imports the package of types from below the module that variables give. -/
theorem shapes_client (c : Config) (tree : FileTree) :
    ∃ s d, Schema.ofSdl shapesText = .ok s ∧ Definition.ofSchema s IgnoreList.builtin = .ok d ∧
      ∃ client, (packageFiles c d tree).text? "cmd/main/sdk.go" = some client ∧
        Imports client (withTypes (moduleName (c.templateData d Target.goTarget tree))) := by
  have htest : definesWith (fun d => decide (UsesTypes d)) shapesText = true := by decide +kernel
  obtain ⟨s, d, hs, hd, htest⟩ := exists_of_definesWith htest
  have hmentions := (mentions_methodsText_iff hs hd Target.goTarget.primitives).2 (.inl (of_decide_eq_true htest))
  exact ⟨s, d, hs, hd, _, text?_packageFiles_client c d tree, (Package.imports_clientFile _ _).1.2 hmentions⟩

/-- With a package name, the client of the shapes imports the types from below the module of that name. -/
theorem named_shapes_agree :
    ∃ s d, Schema.ofSdl shapesText = .ok s ∧ Definition.ofSchema s IgnoreList.builtin = .ok d ∧
      ∃ content module client,
        (packageFiles (namedConfig "acme.io/shapes") d .empty).get? "go.mod" = some content ∧
        content.resolve ⟨"go.mod", .ofTarget none Target.goTarget, .empty⟩ = .ok (moduleFile module) ∧
        (packageFiles (namedConfig "acme.io/shapes") d .empty).text? "cmd/main/sdk.go" = some client ∧
        Imports client [["context"], [module ++ "/cmd/main/types"]] := by
  obtain ⟨s, d, hs, hd, client, hclient, himports⟩ := shapes_client (namedConfig "acme.io/shapes") .empty
  obtain ⟨content, module, client', hcontent, hmodule, hclient', -, hagree⟩ :=
    module_paths_agree_iff (namedConfig "acme.io/shapes") d .empty
  obtain rfl : client' = client := Option.some.inj (hclient'.symm.trans hclient)
  have hpath := (hagree _ himports).2 (show "acme.io/shapes" ≠ "" by decide)
  exact ⟨s, d, hs, hd, content, module, client', hcontent, hmodule, hclient, hpath ▸ himports⟩

/-- With an empty package name, the module of the shapes is the default one, but the client imports the types from elsewhere. -/
theorem empty_name_paths_differ :
    ∃ s d, Schema.ofSdl shapesText = .ok s ∧ Definition.ofSchema s IgnoreList.builtin = .ok d ∧
      ∃ content client,
        (packageFiles (namedConfig "") d .empty).get? "go.mod" = some content ∧
        content.resolve ⟨"go.mod", .ofTarget none Target.goTarget, .empty⟩ = .ok (moduleFile "sdk") ∧
        (packageFiles (namedConfig "") d .empty).text? "cmd/main/sdk.go" = some client ∧
        Imports client [["context"], ["/cmd/main/types"]] ∧ ¬ Imports client [["context"], ["sdk" ++ "/cmd/main/types"]] := by
  obtain ⟨s, d, hs, hd, client, hclient, himports⟩ := shapes_client (namedConfig "") .empty
  have hname : ((namedConfig "").templateData d Target.goTarget .empty).member? "packageName" = some (.str "") := by
    rw [member?_packageName]
    rfl
  have hmodule := resolve_packageFiles_module (namedConfig "") d .empty
  rw [hname] at hmodule
  rw [moduleName, hname] at himports
  refine ⟨s, d, hs, hd, _, client, get?_packageFiles_module _ d .empty, hmodule, hclient, himports, fun hother => ?_⟩
  exact absurd (himports.path_eq hother) (by decide)

end Go

end SdkLoom
