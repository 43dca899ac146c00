import Mathlib.Data.List.Nodup
import SdkLoom.Introspection.Transport
import SdkLoom.Proofs.SchemaCodec

/-!
# Responses that report errors

The errors of a response are to win over its data, whatever that is. But a response is read as a whole, its data before its
errors are looked at. A reply of success therefore reports its errors exactly if its data is left out, null, or a container
of a schema, and no value of the body is at fault; any other reply does if its data is left out or without faults
(`errors_reported_iff`). Where this is not so, a reply of success is taken for a malformed one, and any other loses its errors.
-/

namespace SdkLoom

open Json (Record Document)

variable {ε α β : Type}

namespace Json

/-! ## Values by their keys -/

/-- The values that stand under a key, in their order. -/
def valuesAt (key : String) (members : List (String × β)) : List β := (members.filter (·.1 == key)).map Prod.snd

theorem head?_valuesAt (key : String) (members : List (String × β)) :
    (valuesAt key members).head? = members.lookup key := by
  induction members with
  | nil => rfl
  | cons m members ih =>
    obtain ⟨k, v⟩ := m
    by_cases h : k = key
    · subst h
      simp [valuesAt]
    · simpa [valuesAt, List.lookup_cons, beq_false_of_ne h, beq_false_of_ne (Ne.symm h)] using ih

theorem length_valuesAt (key : String) (members : List (String × β)) :
    (valuesAt key members).length = (members.map Prod.fst).count key := by
  rw [valuesAt, List.length_map, List.count_eq_countP, List.countP_map, List.countP_eq_length_filter]
  rfl

namespace Record

/-- Members are a record exactly if no known name has two values. -/
theorem exists_ofMembers?_iff (names : List String) (members : List (String × β)) :
    (∃ r, ofMembers? names members = some r) ↔ ∀ n ∈ names, (valuesAt n members).length ≤ 1 := by
  have hknown : (members.filter fun m => names.contains m.1).map Prod.fst =
      (members.map Prod.fst).filter names.contains := by
    rw [List.filter_map]
    rfl
  have hsome : (∃ r, ofMembers? names members = some r) ↔ ((members.map Prod.fst).filter names.contains).Nodup := by
    rw [← hknown]
    simp [ofMembers?]
  rw [hsome, List.nodup_iff_count_le_one]
  constructor
  · intro h n hn
    rw [length_valuesAt, ← List.count_filter (p := names.contains) (by simpa using hn)]
    exact h n
  · intro h n
    by_cases hn : n ∈ names
    · rw [List.count_filter (by simpa using hn), ← length_valuesAt]
      exact h n hn
    · rw [List.count_eq_zero.2 fun hmem => hn (by simpa using (List.mem_filter.1 hmem).2)]
      exact Nat.zero_le 1

theorem positional_of_ofMembers? {names : List String} {members : List (String × β)} {r : Record β}
    (h : ofMembers? names members = some r) : r.positional = false := by
  obtain ⟨-, h⟩ := Option.ite_none_right_eq_some.1 h
  cases h
  rfl

/-- Members are a record that gives every known name its one value, if none has two. -/
theorem exists_of_valuesAt (names : List String) (members : List (String × β))
    (h : ∀ n ∈ names, (valuesAt n members).length ≤ 1) :
    ∃ r, ofMembers? names members = some r ∧ r.positional = false ∧ ∀ n ∈ names, r.get? n = (valuesAt n members).head? := by
  obtain ⟨r, hr⟩ := (exists_ofMembers?_iff names members).2 h
  refine ⟨r, hr, positional_of_ofMembers? hr, fun n hn => ?_⟩
  rw [get?_of_ofMembers? hr hn, head?_valuesAt]

end Record

/-- The values under a key are one list, or there are none and the list is empty. -/
def ListAt (key : String) (members : List (String × Tree ε)) (form : Tree ε → α → Prop) (l : List α) : Prop :=
  valuesAt key members = [] ∧ l = [] ∨ ∃ items, valuesAt key members = [.arr items] ∧ List.Forall₂ form items l

theorem ListAt.length_le {key : String} {members : List (String × Tree ε)} {form : Tree ε → α → Prop} {l : List α}
    (h : ListAt key members form l) : (valuesAt key members).length ≤ 1 := by
  rcases h with ⟨h, -⟩ | ⟨items, h, -⟩ <;> simp [h]

theorem ListAt.defaulted {key : String} {members : List (String × Tree ε)} {form : Tree ε → α → Prop} {l : List α}
    (h : ListAt key members form l) {f : Tree ε → Option α} (hf : ∀ t a, form t a → f t = some a)
    {r : Record (Tree ε)} (hr : r.get? key = (valuesAt key members).head?) :
    r.defaulted key (Tree.list? f) [] = some l := by
  rcases h with ⟨h, rfl⟩ | ⟨items, h, hitems⟩
  · rw [Record.defaulted, hr, h, List.head?_nil]
  · rw [Record.defaulted, hr, h, List.head?_cons]
    exact mapM_eq_some_iff.2 (hitems.imp fun {t a} h => hf t a h)

end Json

/-! ## Errors as they are written -/

/-- A tree is the JSON form of a location: an object that gives both coordinates. -/
def Location.HasForm (l : Location) (t : Json.Tree ε) : Prop :=
  ∃ members, t = .obj members ∧ Json.valuesAt "line" members = [.num (.int l.line)] ∧
    Json.valuesAt "column" members = [.num (.int l.column)] ∧ fitsSigned 64 l.line = true ∧ fitsSigned 64 l.column = true

/-- A tree is the JSON form of an error: an object with a message, and perhaps with locations and a path. What else it may
have is not looked at. -/
def ResponseError.HasForm (e : ResponseError) (t : Json.Tree ε) : Prop :=
  ∃ members, t = .obj members ∧ Json.valuesAt "message" members = [.str e.message] ∧
    Json.ListAt "locations" members (fun t l => Location.HasForm l t) e.locations ∧
    Json.ListAt "path" members (fun t v => t.value? = some v) e.path

theorem Location.HasForm.ofTree?_eq {l : Location} {t : Json.Tree ε} (h : l.HasForm t) : Location.ofTree? t = some l := by
  obtain ⟨members, rfl, hline, hcolumn, hfits, hfits'⟩ := h
  obtain ⟨r, hr, -, hget⟩ := Record.exists_of_valuesAt ["line", "column"] members
    (by simp [hline, hcolumn])
  have hl : r.get? "line" = _ := hget _ (by simp)
  have hc : r.get? "column" = _ := hget _ (by simp)
  rw [hline] at hl
  rw [hcolumn] at hc
  simp [Location.ofTree?, Json.Tree.record?, hr, Record.required, hl, hc, Json.Tree.int64?, hfits, hfits']

theorem ResponseError.HasForm.ofTree?_eq {e : ResponseError} {t : Json.Tree ε} (h : e.HasForm t) :
    ResponseError.ofTree? t = some e := by
  obtain ⟨members, rfl, hmessage, hlocations, hpath⟩ := h
  obtain ⟨r, hr, -, hget⟩ := Record.exists_of_valuesAt ["message", "locations", "path"] members
    (by simp [hmessage, hlocations.length_le, hpath.length_le])
  have hm : r.get? "message" = _ := hget _ (by simp)
  have hl := hlocations.defaulted (fun t l h => Location.HasForm.ofTree?_eq h) (hget _ (by simp))
  have hp := hpath.defaulted (fun t v h => h) (hget _ (by simp))
  rw [hmessage] at hm
  simp [ResponseError.ofTree?, Json.Tree.record?, hr, Record.required, hm, hl, hp, Json.Tree.string?]

/-- The members report errors: these stand under one key, each in its JSON form. -/
def Reports (members : List (String × Json.Tree ε)) (errors : List ResponseError) : Prop :=
  ∃ items, Json.valuesAt "errors" members = [.arr items] ∧ List.Forall₂ (fun t e => ResponseError.HasForm e t) items errors

/-- The data among the members is left out, null or of a certain form. -/
def DataIs (form : Json.Tree ε → Prop) (members : List (String × Json.Tree ε)) : Prop :=
  Json.valuesAt "data" members = [] ∨ ∃ d, Json.valuesAt "data" members = [d] ∧ (d = .null ∨ form d)

/-- Data can be read where a response is a record at all: it must not be given twice. -/
theorem dataIs_iff {members : List (String × Json.Tree ε)} (h : (Json.valuesAt "data" members).length ≤ 1)
    (f : Json.Tree ε → Option α) {r : Record (Json.Tree ε)} (hnamed : r.positional = false)
    (hr : r.get? "data" = (Json.valuesAt "data" members).head?) :
    DataIs (fun d => ∃ a, f d = some a) members ↔ ∃ data, r.optional "data" (Json.Tree.nullable? f) = some data := by
  rw [Record.optional, hr, hnamed]
  rcases hdata : Json.valuesAt "data" members with _ | ⟨d, _ | ⟨d', ds⟩⟩
  · simp [DataIs, hdata]
  · cases d <;> simp [DataIs, hdata, Json.Tree.nullable?, Option.map_eq_some_iff]
  · simp [hdata] at h

/-- What reports errors is a response exactly if its data can be read, and then has these errors. -/
theorem Reports.ofTree? {members : List (String × Json.Tree ε)} {errors : List ResponseError} (h : Reports members errors)
    (f : Json.Tree ε → Option α) :
    (DataIs (fun d => ∃ a, f d = some a) members → ∃ data, Response.ofTree? f (.obj members) = some ⟨data, errors⟩) ∧
      (¬ DataIs (fun d => ∃ a, f d = some a) members → Response.ofTree? f (.obj members) = none) := by
  obtain ⟨items, hitems, herrors⟩ := h
  by_cases hlength : (Json.valuesAt "data" members).length ≤ 1
  · obtain ⟨r, hr, hnamed, hget⟩ := Record.exists_of_valuesAt ["data", "errors"] members
      (by simp [hlength, hitems])
    have hread : r.defaulted "errors" (Json.Tree.list? ResponseError.ofTree?) [] = some errors :=
      Json.ListAt.defaulted (.inr ⟨items, hitems, herrors⟩) (fun t e h => h.ofTree?_eq) (hget _ (by simp))
    rw [dataIs_iff hlength f hnamed (hget _ (by simp))]
    constructor
    · rintro ⟨data, hdata⟩
      exact ⟨data, by simp [Response.ofTree?, Json.Tree.record?, hr, hdata, hread]⟩
    · intro hdata
      have hnone : r.optional "data" (Json.Tree.nullable? f) = none := by
        simpa only [not_exists, ← Option.eq_none_iff_forall_ne_some] using hdata
      simp [Response.ofTree?, Json.Tree.record?, hr, hnone]
  · have hnone : Record.ofMembers? ["data", "errors"] members = none := by
      refine Option.eq_none_iff_forall_ne_some.2 fun r hr => hlength ?_
      exact (Record.exists_ofMembers?_iff _ _).1 ⟨r, hr⟩ "data" (by simp)
    refine ⟨?_, fun _ => by simp [Response.ofTree?, Json.Tree.record?, hnone]⟩
    rintro (hdata | ⟨d, hdata, -⟩) <;> simp [hdata] at hlength

/-! ## Trees without faults -/

namespace Json.Tree

mutual

/-- The value of a tree is what it stands for, sorted. -/
theorem value?_eq_map_sorted : ∀ t : Tree ε, t.value? = t.faultless?.map Json.sorted
  | .fault _ => rfl
  | .null => rfl
  | .bool _ => rfl
  | .num _ => rfl
  | .str _ => rfl
  | .arr items => by
    rw [value?, faultless?, values?_eq_map_sortedItems items, Option.map_map, Option.map_map]
    rfl
  | .obj members => by
    rw [value?, faultless?, memberValues?_eq_map_sortedMembers members, Option.map_map, Option.map_map]
    rfl

theorem values?_eq_map_sortedItems : ∀ items : List (Tree ε),
    values? items = (faultlessItems? items).map Json.sortedItems
  | [] => rfl
  | t :: items => by
    rw [values?, faultlessItems?, value?_eq_map_sorted t, values?_eq_map_sortedItems items]
    cases t.faultless? <;> cases faultlessItems? items <;> rfl

theorem memberValues?_eq_map_sortedMembers : ∀ members : List (String × Tree ε),
    memberValues? members = (faultlessMembers? members).map Json.sortedMembers
  | [] => rfl
  | (k, t) :: members => by
    rw [memberValues?, faultlessMembers?, value?_eq_map_sorted t, memberValues?_eq_map_sortedMembers members]
    cases t.faultless? <;> cases faultlessMembers? members <;> rfl

end

/-- A tree without faults has the value of what it stands for. -/
theorem value?_of_faultless? {t : Tree ε} {j : Json} (h : t.faultless? = some j) : j.value? = t.value? := by
  rw [value?_eq_map_sorted, value?_eq_map_sorted, h, faultless?_self]

theorem forall₂_of_faultlessItems? {items : List (Tree ε)} {js : List Json} (h : faultlessItems? items = some js) :
    List.Forall₂ (fun t j => t.faultless? = some j) items js := by
  induction items generalizing js with
  | nil =>
    cases h
    exact .nil
  | cons t items ih =>
    rw [faultlessItems?] at h
    split at h
    next ht hitems =>
      cases h
      exact .cons ht (ih hitems)
    next => cases h

/-- What stands under a key is without faults, and stands for what its value has there. -/
theorem forall₂_valuesAt {members : List (String × Tree ε)} {js : List (String × Json)}
    (h : faultlessMembers? members = some js) (key : String) :
    List.Forall₂ (fun t j => t.faultless? = some j) (valuesAt key members) (valuesAt key js) := by
  induction members generalizing js with
  | nil =>
    cases h
    exact .nil
  | cons m members ih =>
    obtain ⟨k, t⟩ := m
    rw [faultlessMembers?] at h
    split at h
    next ht hmembers =>
      cases h
      by_cases hk : k = key
      · subst hk
        simpa [valuesAt, ht] using ih hmembers
      · simpa [valuesAt, hk] using ih hmembers
    next => cases h

/-- One value under a key stays one. -/
theorem exists_valuesAt_eq {members : List (String × Tree ε)} {js : List (String × Json)}
    (h : faultlessMembers? members = some js) {key : String} {t : Tree ε} (ht : valuesAt key members = [t]) :
    ∃ j, valuesAt key js = [j] ∧ t.faultless? = some j := by
  have hvalues := forall₂_valuesAt h key
  rw [ht] at hvalues
  obtain ⟨j, rest, hj, hrest, heq⟩ := List.forall₂_cons_left_iff.1 hvalues
  cases hrest
  exact ⟨j, heq, hj⟩

theorem valuesAt_eq_nil {members : List (String × Tree ε)} {js : List (String × Json)}
    (h : faultlessMembers? members = some js) {key : String} (hnone : valuesAt key members = []) : valuesAt key js = [] := by
  have hvalues := forall₂_valuesAt h key
  rw [hnone] at hvalues
  exact List.forall₂_nil_left_iff.1 hvalues

/-- What items are the forms of is kept where each is replaced by what it stands for. -/
theorem forall₂_of_faultlessItems {form : Tree ε → α → Prop} {form' : Json → α → Prop}
    (hform : ∀ t j a, form t a → t.faultless? = some j → form' j a) {items : List (Tree ε)} {js : List Json} {l : List α}
    (h : List.Forall₂ form items l) (hfree : faultlessItems? items = some js) : List.Forall₂ form' js l := by
  have hjs := forall₂_of_faultlessItems? hfree
  clear hfree
  induction h generalizing js with
  | nil =>
    cases hjs
    exact .nil
  | cons ha _ ih =>
    cases hjs with
    | cons hj hrest => exact .cons (hform _ _ _ ha hj) (ih hrest)

theorem exists_arr_of_faultless? {items : List (Tree ε)} {j : Json} (h : (Tree.arr items).faultless? = some j) :
    ∃ js, j = .arr js ∧ faultlessItems? items = some js := by
  rw [faultless?] at h
  obtain ⟨js, hjs, rfl⟩ := Option.map_eq_some_iff.1 h
  exact ⟨js, rfl, hjs⟩

theorem exists_obj_of_faultless? {members : List (String × Tree ε)} {j : Json} (h : (Tree.obj members).faultless? = some j) :
    ∃ js, j = .obj js ∧ faultlessMembers? members = some js := by
  rw [faultless?] at h
  obtain ⟨js, hjs, rfl⟩ := Option.map_eq_some_iff.1 h
  exact ⟨js, rfl, hjs⟩

end Json.Tree

open Json.Tree (faultlessMembers?)

theorem Json.ListAt.of_faultless {key : String} {members : List (String × Json.Tree ε)} {form : Json.Tree ε → α → Prop}
    {form' : Json → α → Prop} {l : List α} (h : Json.ListAt key members form l)
    (hform : ∀ t j a, form t a → t.faultless? = some j → form' j a) {js : List (String × Json)}
    (hfree : faultlessMembers? members = some js) : Json.ListAt key js form' l := by
  rcases h with ⟨hnone, rfl⟩ | ⟨items, hitems, hl⟩
  · exact .inl ⟨Json.Tree.valuesAt_eq_nil hfree hnone, rfl⟩
  · obtain ⟨j, hj, hfaultless⟩ := Json.Tree.exists_valuesAt_eq hfree hitems
    obtain ⟨js', rfl, hjs'⟩ := Json.Tree.exists_arr_of_faultless? hfaultless
    exact .inr ⟨js', hj, Json.Tree.forall₂_of_faultlessItems hform hl hjs'⟩

theorem Location.HasForm.of_faultless {l : Location} {t : Json.Tree ε} {j : Json} (h : l.HasForm t)
    (hfree : t.faultless? = some j) : l.HasForm j := by
  obtain ⟨members, rfl, hline, hcolumn, hfits⟩ := h
  obtain ⟨js, rfl, hjs⟩ := Json.Tree.exists_obj_of_faultless? hfree
  obtain ⟨_, hline', h⟩ := Json.Tree.exists_valuesAt_eq hjs hline
  obtain ⟨_, hcolumn', h'⟩ := Json.Tree.exists_valuesAt_eq hjs hcolumn
  cases h
  cases h'
  exact ⟨js, rfl, hline', hcolumn', hfits⟩

theorem ResponseError.HasForm.of_faultless {e : ResponseError} {t : Json.Tree ε} {j : Json} (h : e.HasForm t)
    (hfree : t.faultless? = some j) : e.HasForm j := by
  obtain ⟨members, rfl, hmessage, hlocations, hpath⟩ := h
  obtain ⟨js, rfl, hjs⟩ := Json.Tree.exists_obj_of_faultless? hfree
  obtain ⟨_, hmessage', h⟩ := Json.Tree.exists_valuesAt_eq hjs hmessage
  cases h
  refine ⟨js, rfl, hmessage', hlocations.of_faultless (fun _ _ _ h hfree => h.of_faultless hfree) hjs,
    hpath.of_faultless (fun _ _ _ h hfree => ?_) hjs⟩
  rw [Json.Tree.value?_of_faultless? hfree, h]

theorem Reports.of_faultless {members : List (String × Json.Tree ε)} {errors : List ResponseError}
    (h : Reports members errors) {js : List (String × Json)} (hfree : faultlessMembers? members = some js) :
    Reports js errors := by
  obtain ⟨items, hitems, herrors⟩ := h
  obtain ⟨j, hj, hfaultless⟩ := Json.Tree.exists_valuesAt_eq hfree hitems
  obtain ⟨js', rfl, hjs'⟩ := Json.Tree.exists_arr_of_faultless? hfaultless
  exact ⟨js', hj, Json.Tree.forall₂_of_faultlessItems (fun _ _ _ h hfree => h.of_faultless hfree) herrors hjs'⟩

namespace Introspection

/-! ## Replies -/

/-- A body that reports errors: an object that is no container of a schema, with these errors among its members. -/
structure ErrorBody (body : String) (members : List (String × Document)) (errors : List ResponseError) : Prop where
  read : Json.read body = some (.obj members)
  bare : Json.valuesAt "__schema" members = []
  errors : Reports members errors

/-- The message that a reply with errors has. -/
def Reply.errorMessage (r : Reply) (first : ResponseError) : String :=
  if Http.isSuccess r.status then first.message else "introspection http error: " ++ Http.showStatus r.status

/-- Nothing in a body keeps its errors from being seen. In a reply of success, all of the body has to be without faults and
its data left out, null or a container of a schema; in any other, only the data counts, and only its faults. -/
def Unmasked (status : Nat) (members : List (String × Document)) : Prop :=
  if Http.isSuccess status then
    ∃ js, faultlessMembers? members = some js ∧ DataIs (fun d => ∃ s, Schema.ofContainer? d = some s) js
  else DataIs (fun d => ∃ j, d.faultless? = some j) members

theorem ofContainer?_of_bare {members : List (String × Json.Tree ε)} (h : Json.valuesAt "__schema" members = []) :
    Schema.ofContainer? (.obj members) = none := by
  obtain ⟨r, hr, -, hget⟩ := Record.exists_of_valuesAt ["__schema"] members (by simp [h])
  have hnone : r.get? "__schema" = none := by rw [hget _ (by simp), h, List.head?_nil]
  simp [Schema.ofContainer?, Json.Tree.record?, hr, Record.required, hnone]

variable {status : Nat} {body : String} {members : List (String × Document)} {first : ResponseError}
  {rest : List ResponseError}

theorem ErrorBody.ofText_eq (h : ErrorBody body members (first :: rest)) {js : List (String × Json)}
    (hfree : faultlessMembers? members = some js) :
    (DataIs (fun d => ∃ s, Schema.ofContainer? d = some s) js →
      Schema.ofText body = .error (.response ⟨none, first :: rest, body, first.message⟩)) ∧
    (¬ DataIs (fun d => ∃ s, Schema.ofContainer? d = some s) js → Schema.ofText body = .error .json) := by
  have htree : (Json.read body).bind Json.Tree.faultless? = some (.obj js) := by
    rw [h.read, Option.bind_some, Json.Tree.faultless?, hfree, Option.map_some]
  have hresponse := (h.errors.of_faultless hfree).ofTree? Schema.ofContainer?
  have hcontainer := ofContainer?_of_bare (Json.Tree.valuesAt_eq_nil hfree h.bare)
  rw [Schema.ofText, htree]
  constructor
  · intro hdata
    obtain ⟨data, hread⟩ := hresponse.1 hdata
    simp [Schema.ofEnvelope, hcontainer, hread, Schema.ofResponse]
  · intro hdata
    simp [Schema.ofEnvelope, hcontainer, hresponse.2 hdata]

theorem ErrorBody.ofText_eq_json (h : ErrorBody body members (first :: rest)) (hfree : faultlessMembers? members = none) :
    Schema.ofText body = .error .json := by
  have htree : (Json.read body).bind Json.Tree.faultless? = none := by
    rw [h.read, Option.bind_some, Json.Tree.faultless?, hfree, Option.map_none]
  rw [Schema.ofText, htree]

theorem ErrorBody.reportedErrors_eq (h : ErrorBody body members (first :: rest)) :
    (DataIs (fun d => ∃ j, d.faultless? = some j) members → reportedErrors body = first :: rest) ∧
    (¬ DataIs (fun d => ∃ j, d.faultless? = some j) members → reportedErrors body = []) := by
  have hvalue : ∀ d : Document, (∃ j, d.faultless? = some j) ↔ ∃ v, d.value? = some v := by
    intro d
    simp [Json.Tree.value?_eq_map_sorted]
  have hresponse := h.errors.ofTree? Json.Tree.value?
  simp only [hvalue]
  rw [reportedErrors, h.read, Option.bind_some]
  constructor
  · intro hdata
    obtain ⟨data, hread⟩ := hresponse.1 hdata
    rw [hread]
  · intro hdata
    rw [hresponse.2 hdata]

theorem ErrorBody.schema_of_unmasked (h : ErrorBody body members (first :: rest)) (hdata : Unmasked status members) :
    Reply.schema ⟨status, body⟩ =
      .error (.response ⟨some status, first :: rest, body, Reply.errorMessage ⟨status, body⟩ first⟩) := by
  cases hstatus : Http.isSuccess status with
  | true =>
    simp only [Unmasked, hstatus, if_true] at hdata
    obtain ⟨js, hfree, hdata⟩ := hdata
    simp [Reply.schema, Reply.errorMessage, hstatus, (h.ofText_eq hfree).1 hdata, Except.mapError, withStatus]
  | false =>
    simp only [Unmasked, hstatus, Bool.false_eq_true, if_false] at hdata
    simp [Reply.schema, Reply.failure, Reply.errorMessage, hstatus, h.reportedErrors_eq.1 hdata]

/-- What becomes of masked errors. -/
theorem ErrorBody.schema_of_masked (h : ErrorBody body members (first :: rest)) (hdata : ¬ Unmasked status members) :
    Reply.schema ⟨status, body⟩ =
      if Http.isSuccess status then .error .json
      else .error (.response ⟨some status, [], body, Reply.errorMessage ⟨status, body⟩ first⟩) := by
  cases hstatus : Http.isSuccess status with
  | true =>
    have htext : Schema.ofText body = .error .json := by
      simp only [Unmasked, hstatus, if_true] at hdata
      cases hfree : faultlessMembers? members with
      | none => exact h.ofText_eq_json hfree
      | some js => exact (h.ofText_eq hfree).2 fun hjs => hdata ⟨js, hfree, hjs⟩
    simp [Reply.schema, hstatus, htext, Except.mapError, withStatus]
  | false =>
    simp only [Unmasked, hstatus, Bool.false_eq_true, if_false] at hdata
    simp [Reply.schema, Reply.failure, Reply.errorMessage, hstatus, h.reportedErrors_eq.2 hdata]

/-- The errors that a body reports come through, with the status, the body and a message, exactly if nothing in the body
masks them. If something does, a reply of success is an error of its JSON, and any other is left without errors. -/
theorem errors_reported_iff (status : Nat) (h : ErrorBody body members (first :: rest)) :
    (Reply.schema ⟨status, body⟩ =
        .error (.response ⟨some status, first :: rest, body, Reply.errorMessage ⟨status, body⟩ first⟩) ↔
      Unmasked status members) ∧
    (¬ Unmasked status members → Reply.schema ⟨status, body⟩ =
      if Http.isSuccess status then .error .json
      else .error (.response ⟨some status, [], body, Reply.errorMessage ⟨status, body⟩ first⟩)) := by
  refine ⟨⟨fun heq => ?_, h.schema_of_unmasked⟩, h.schema_of_masked⟩
  by_contra hmasked
  rw [h.schema_of_masked hmasked] at heq
  split at heq <;> cases heq

/-- A body with data that is null, and with an error that has a place and a path. -/
def nullBody : String :=
  "\x7b\"data\": null, \"errors\": [\x7b\"message\": \"late\", \"locations\": [\x7b\"line\": 2, \"column\": 3\x7d]," ++
    " \"path\": [\"a\", 0]\x7d]\x7d"

/-- The error of that body as it is written. -/
def lateForm : Document :=
  .obj [("message", .str "late"), ("locations", .arr [.obj [("line", .num (.int 2)), ("column", .num (.int 3))]]),
    ("path", .arr [.str "a", .num (.int 0)])]

/-- The error of that body. -/
def lateError : ResponseError := ⟨"late", [⟨2, 3⟩], [.str "a", .num (.int 0)]⟩

theorem nullBody_reported :
    ErrorBody nullBody [("data", .null), ("errors", .arr [lateForm])] [lateError] ∧
      Reply.schema ⟨200, nullBody⟩ = .error (.response ⟨some 200, [lateError], nullBody, "late"⟩) := by
  have hform : lateError.HasForm lateForm :=
    ⟨_, rfl, rfl, .inr ⟨_, rfl, .cons ⟨_, rfl, rfl, rfl, rfl, rfl⟩ .nil⟩, .inr ⟨_, rfl, .cons rfl (.cons rfl .nil)⟩⟩
  have hbody : ErrorBody nullBody [("data", .null), ("errors", .arr [lateForm])] [lateError] :=
    ⟨rfl, rfl, _, rfl, .cons hform .nil⟩
  have hdata : Unmasked 200 [("data", .null), ("errors", .arr [lateForm])] := by
    rw [Unmasked, if_pos (by decide)]
    exact ⟨_, rfl, .inr ⟨_, rfl, .inl rfl⟩⟩
  have hmessage : Reply.errorMessage ⟨200, nullBody⟩ lateError = "late" := if_pos (by decide)
  refine ⟨hbody, ?_⟩
  rw [← hmessage]
  exact (errors_reported_iff 200 hbody).1.2 hdata

/-- A body with an error, and with data that is an empty object. -/
def emptyDataBody : String := "\x7b\"errors\": [\x7b\"message\": \"field failed\"\x7d], \"data\": \x7b\x7d\x7d"

/-- The members of that body. -/
def emptyDataMembers : List (String × Document) :=
  [("errors", .arr [.obj [("message", .str "field failed")]]), ("data", .obj [])]

/-- Data that is there though it is no container masks an error in a reply of success. -/
theorem emptyDataBody_masked :
    ErrorBody emptyDataBody emptyDataMembers [⟨"field failed", [], []⟩] ∧
      Reply.schema ⟨200, emptyDataBody⟩ = .error .json := by
  have hbody : ErrorBody emptyDataBody emptyDataMembers [⟨"field failed", [], []⟩] :=
    ⟨rfl, rfl, _, rfl, .cons ⟨_, rfl, rfl, .inl ⟨rfl, rfl⟩, .inl ⟨rfl, rfl⟩⟩ .nil⟩
  have hmasked : ¬ Unmasked 200 emptyDataMembers := by
    rw [Unmasked, if_pos (by decide)]
    rintro ⟨js, hfree, hdata⟩
    cases hfree
    simp [DataIs, Json.valuesAt, ofContainer?_of_bare] at hdata
  exact ⟨hbody, hbody.schema_of_masked hmasked⟩

end Introspection

end SdkLoom
