import SdkLoom.Go.Package
import SdkLoom.Proofs.ByteOrder
import SdkLoom.Proofs.Catalog

/-!
# The operations of a catalog in their one order

A catalog lists its operations in the order in which root fields were found; a client is written from them in an order of
their own, by kind and then by the bytes of their names. No two operations of a keyed catalog have one name, so that order
is strict (`Catalog.Keyed.pairwise_operations`), and a list that is strictly in order is told by its members alone
(`Operation.eq_of_mem_iff`). So the order of discovery leaves no trace in the operations, nor in the sources that are
written from them (`operations_canonical`).
-/

namespace SdkLoom

/-! ## The order of operations -/

namespace Operation

/-- The strict order of operations: queries before mutations, and in each kind by the bytes of the names. -/
def Before (a b : Operation) : Prop :=
  a.query.kind = .query ∧ b.query.kind = .mutation ∨
    a.query.kind = b.query.kind ∧ Text.bytes a.query.name < Text.bytes b.query.name

theorem Before.asymm {a b : Operation} (h : a.Before b) : ¬ b.Before a := by
  rintro (⟨hb, ha⟩ | ⟨hkind, hlt⟩)
  · rcases h with ⟨ha', -⟩ | ⟨hkind, -⟩
    · cases ha.symm.trans ha'
    · cases hb.symm.trans (hkind.symm.trans ha)
  · rcases h with ⟨ha, hb⟩ | ⟨-, hlt'⟩
    · cases hb.symm.trans (hkind.trans ha)
    · exact List.lt_asymm hlt hlt'

theorem Before.ne {a b : Operation} (h : a.Before b) : a ≠ b := by
  rintro rfl
  exact h.asymm h

/-- A list of operations that is strictly in order is told by its members. -/
theorem eq_of_mem_iff {l l' : List Operation} (hl : l.Pairwise Before) (hl' : l'.Pairwise Before)
    (h : ∀ op, op ∈ l ↔ op ∈ l') : l = l' := by
  have hperm : l.Perm l' :=
    (List.perm_ext_iff_of_nodup (hl.imp fun hab => hab.ne) (hl'.imp fun hab => hab.ne)).2 h
  exact hperm.eq_of_pairwise (fun a b _ _ hab hba => absurd hba hab.asymm) hl hl'

/-- The comparison of operations by kind and then by name. -/
def order : Operation → Operation → Ordering :=
  compareLex (compareOn fun op => rank op.query.kind) (compareOn fun op => op.query.name)

theorem precedes_eq (a b : Operation) : precedes a b = (order a b).isLE := by
  rw [precedes, order, compareLex, compareOn, compareOn]
  cases hrank : compare (rank a.query.kind) (rank b.query.kind) with
  | lt =>
    rw [decide_eq_true (Nat.compare_eq_lt.1 hrank)]
    rfl
  | eq =>
    rw [Nat.compare_eq_eq.1 hrank, beq_self_eq_true, decide_eq_false (Nat.lt_irrefl _)]
    cases compare a.query.name b.query.name <;> rfl
  | gt =>
    have hlt := Nat.compare_eq_gt.1 hrank
    rw [decide_eq_false (Nat.lt_asymm hlt), beq_false_of_ne (Nat.ne_of_gt hlt)]
    rfl

theorem precedes_trans (a b c : Operation) (hab : precedes a b = true) (hbc : precedes b c = true) :
    precedes a c = true := by
  have horder : Std.TransCmp order := inferInstanceAs (Std.TransCmp (compareLex _ _))
  rw [precedes_eq] at hab hbc ⊢
  exact Std.TransCmp.isLE_trans hab hbc

theorem precedes_total (a b : Operation) : (precedes a b || precedes b a) = true := by
  have horder : Std.OrientedCmp order := inferInstanceAs (Std.OrientedCmp (compareLex _ _))
  have hswap : order b a = (order a b).swap := Std.OrientedCmp.eq_swap
  rw [precedes_eq, precedes_eq, hswap]
  cases order a b <;> rfl

/-- An operation that may stand before one of another name is strictly before it. -/
theorem before_of_precedes {a b : Operation} (h : precedes a b = true) (hname : a.query.name ≠ b.query.name) :
    a.Before b := by
  have hranks : ∀ k k' : OperationKind, (rank k < rank k' ↔ k = .query ∧ k' = .mutation) ∧ (rank k = rank k' ↔ k = k') := by
    intro k k'
    cases k <;> cases k' <;> decide
  simp only [precedes, Bool.or_eq_true, Bool.and_eq_true, decide_eq_true_eq, beq_iff_eq, bne_iff_ne, hranks] at h
  refine h.imp_right fun ⟨hkind, hle⟩ => ⟨hkind, Text.bytes_lt_of_lt ?_⟩
  cases hcompare : compare a.query.name b.query.name with
  | lt => exact compareOfLessAndEq_eq_lt.1 hcompare
  | eq => exact absurd (Std.LawfulEqCmp.eq_of_compare hcompare) hname
  | gt => exact absurd hcompare hle

end Operation

/-! ## Keyed catalogs -/

namespace Catalog

/-- Every key of either side has one entry, and every entry stands under its own name. -/
structure Keyed (c : Catalog) : Prop where
  distinctQueries : OrderedMap.Distinct c.queries
  distinctMethods : OrderedMap.Distinct c.methods
  queries : ∀ e ∈ c.queries, e.2.name = e.1
  methods : ∀ e ∈ c.methods, e.2.name = e.1

/-- The operation of a name that both sides of a catalog have. -/
def operation? (c : Catalog) (n : String) : Option Operation :=
  (OrderedMap.get? c.queries n).bind fun query =>
    (OrderedMap.get? c.methods n).map fun method => { query, method : Operation }

theorem operation?_eq_some_iff (c : Catalog) (n : String) (op : Operation) :
    c.operation? n = some op ↔
      OrderedMap.get? c.queries n = some op.query ∧ OrderedMap.get? c.methods n = some op.method := by
  rw [operation?, Option.bind_eq_some_iff]
  constructor
  · rintro ⟨query, hquery, hop⟩
    obtain ⟨method, hmethod, rfl⟩ := Option.map_eq_some_iff.1 hop
    exact ⟨hquery, hmethod⟩
  · rintro ⟨hquery, hmethod⟩
    exact ⟨op.query, hquery, Option.map_eq_some_iff.2 ⟨op.method, hmethod, rfl⟩⟩

/-- The catalog of root fields is keyed. -/
theorem keyed_ofFields (idx : Index) (m : Model) (fs : List RootField) : (ofFields idx m fs).Keyed := by
  rw [ofFields_eq]
  refine ⟨OrderedMap.distinct_ofEntries _, OrderedMap.distinct_ofEntries _, fun e he => ?_, fun e he => ?_⟩
  · obtain ⟨f, -, rfl⟩ := List.mem_map.1 (OrderedMap.mem_of_mem_ofEntries he)
    rfl
  · obtain ⟨f, -, rfl⟩ := List.mem_map.1 (OrderedMap.mem_of_mem_ofEntries he)
    rfl

variable {c c' : Catalog}

/-- The entries of a keyed catalog may be listed in any order. -/
theorem Keyed.of_perm (hc : c.Keyed) (hqueries : c'.queries.Perm c.queries) (hmethods : c'.methods.Perm c.methods) :
    c'.Keyed where
  distinctQueries := (hqueries.map Prod.fst).nodup_iff.2 hc.distinctQueries
  distinctMethods := (hmethods.map Prod.fst).nodup_iff.2 hc.distinctMethods
  queries e he := hc.queries e (hqueries.mem_iff.1 he)
  methods e he := hc.methods e (hmethods.mem_iff.1 he)

/-- An operation has the name under which it is found. -/
theorem Keyed.names (hc : c.Keyed) {n : String} {op : Operation} (h : c.operation? n = some op) :
    op.query.name = n ∧ op.method.name = n := by
  obtain ⟨hquery, hmethod⟩ := (operation?_eq_some_iff c n op).1 h
  exact ⟨hc.queries _ (OrderedMap.mem_of_get? hquery), hc.methods _ (OrderedMap.mem_of_get? hmethod)⟩

/-- The operations of a catalog are those that are found under their names. -/
theorem Keyed.mem_operations_iff (hc : c.Keyed) (op : Operation) :
    op ∈ c.operations ↔ c.operation? op.query.name = some op := by
  rw [operations, List.mem_mergeSort, List.mem_filterMap, operation?_eq_some_iff]
  constructor
  · rintro ⟨query, hquery, hop⟩
    obtain ⟨method, hmethod, rfl⟩ := Option.map_eq_some_iff.1 hop
    obtain ⟨e, he, rfl⟩ := List.mem_map.1 hquery
    refine ⟨(OrderedMap.get?_eq_some_iff hc.distinctQueries).2 ?_, hmethod⟩
    rwa [hc.queries e he]
  · rintro ⟨hquery, hmethod⟩
    exact ⟨op.query, OrderedMap.mem_values_of_get? hquery, Option.map_eq_some_iff.2 ⟨op.method, hmethod, rfl⟩⟩

/-- No two operations have one name. -/
theorem Keyed.pairwise_names (hc : c.Keyed) : c.operations.Pairwise fun a b => a.query.name ≠ b.query.name := by
  have hkeys : (OrderedMap.values c.queries).Pairwise fun a b => a.name ≠ b.name := by
    rw [OrderedMap.values, List.pairwise_map]
    refine (List.pairwise_map.1 hc.distinctQueries).imp_of_mem ?_
    intro a b ha hb hab
    rwa [hc.queries a ha, hc.queries b hb]
  refine ((List.mergeSort_perm _ _).pairwise_iff fun hab => hab.symm).2 (hkeys.filterMap _ ?_)
  intro a b hab op hop op' hop'
  obtain ⟨-, -, rfl⟩ := Option.map_eq_some_iff.1 hop
  obtain ⟨-, -, rfl⟩ := Option.map_eq_some_iff.1 hop'
  exact hab

/-- The operations of a catalog are strictly in order. -/
theorem Keyed.pairwise_operations (hc : c.Keyed) : c.operations.Pairwise Operation.Before := by
  have hsorted := List.pairwise_mergeSort Operation.precedes_trans Operation.precedes_total
    ((OrderedMap.values c.queries).filterMap fun query =>
      (OrderedMap.get? c.methods query.name).map fun method => { query, method : Operation })
  exact (hsorted.and hc.pairwise_names).imp fun ⟨hle, hname⟩ => Operation.before_of_precedes hle hname

/-- The operations of a name are the one that is found under it, if there is one. -/
theorem Keyed.filter_operations (hc : c.Keyed) (n : String) :
    (c.operations.filter fun op => decide (op.query.name = n)) = (c.operation? n).toList := by
  have hmem : ∀ op, op ∈ (c.operations.filter fun op => decide (op.query.name = n)) ↔ op ∈ (c.operation? n).toList := by
    intro op
    rw [List.mem_filter, decide_eq_true_eq, hc.mem_operations_iff, Option.mem_toList]
    constructor
    · rintro ⟨hop, rfl⟩
      exact hop
    · intro hop
      obtain ⟨rfl, -⟩ := hc.names hop
      exact ⟨hop, rfl⟩
  refine Operation.eq_of_mem_iff (hc.pairwise_operations.filter _) ?_ hmem
  cases c.operation? n with
  | none => exact .nil
  | some op => exact List.pairwise_singleton _ _

/-- The entries of a keyed catalog give the same operations in whatever order they are listed. -/
theorem Keyed.operations_eq_of_perm (hc : c.Keyed) (hqueries : c'.queries.Perm c.queries)
    (hmethods : c'.methods.Perm c.methods) : c'.operations = c.operations := by
  have hc' : c'.Keyed := hc.of_perm hqueries hmethods
  refine Operation.eq_of_mem_iff hc'.pairwise_operations hc.pairwise_operations fun op => ?_
  rw [hc.mem_operations_iff, hc'.mem_operations_iff, operation?_eq_some_iff, operation?_eq_some_iff,
    OrderedMap.get?_of_perm hc.distinctQueries hc'.distinctQueries hqueries,
    OrderedMap.get?_of_perm hc.distinctMethods hc'.distinctMethods hmethods]

end Catalog

/-! ## The order in which root fields are found -/

/-- The last root field of a name. -/
def RootField.last? (fs : List RootField) (n : String) : Option RootField :=
  fs.reverse.find? fun f => decide (f.field.name = n)

/-- The catalogs of root fields with the same last field of every name have the same entries. -/
theorem Catalog.ofFields_perm {fs fs' : List RootField} (h : ∀ n, RootField.last? fs' n = RootField.last? fs n)
    (idx : Index) (m : Model) :
    (ofFields idx m fs').queries.Perm (ofFields idx m fs).queries ∧
      (ofFields idx m fs').methods.Perm (ofFields idx m fs).methods := by
  have hwritten : ∀ {α : Type} (make : RootField → α),
      (OrderedMap.ofEntries (fs'.map fun f => (f.field.name, make f))).Perm
        (OrderedMap.ofEntries (fs.map fun f => (f.field.name, make f))) := by
    intro α make
    refine OrderedMap.perm_of_get? (OrderedMap.distinct_ofEntries _) (OrderedMap.distinct_ofEntries _) fun n => ?_
    rw [(RootField.written make fs').2, (RootField.written make fs).2]
    exact congrArg (Option.map make) (h n)
  rw [ofFields_eq, ofFields_eq]
  exact ⟨hwritten _, hwritten _⟩

/-- The client of a package is written from its methods alone. -/
theorem Go.Package.clientFile_eq {p p' : Package} (h : p'.methods = p.methods) (module : String) :
    p'.clientFile module = p.clientFile module := by
  have halone : ∀ p : Package, p.clientFile module = (Package.mk [] [] [] p.methods).clientFile module := fun _ => rfl
  rw [halone, halone p, h]

/-- The queries and the client of one definition are those of the other, in every module. -/
def SameSources (d d' : Definition) : Prop :=
  ∀ (ps : Primitives) (module : String),
    (Go.Package.ofDefinition d' ps).queriesFile = (Go.Package.ofDefinition d ps).queriesFile ∧
      (Go.Package.ofDefinition d' ps).clientFile module = (Go.Package.ofDefinition d ps).clientFile module

/-- The queries and the client are written from the operations alone. -/
theorem sameSources_of_operations {d d' : Definition} (h : d'.catalog.operations = d.catalog.operations) :
    SameSources d d' := by
  intro ps module
  have hoperations : (Go.Package.ofDefinition d' ps).operations = (Go.Package.ofDefinition d ps).operations := h
  have hmethods : (Go.Package.ofDefinition d' ps).methods = (Go.Package.ofDefinition d ps).methods :=
    congrArg (List.map (Go.MethodDecl.ofOperation ps)) h
  exact ⟨by simp only [Go.Package.queriesFile, hoperations], Go.Package.clientFile_eq hmethods module⟩

/-- In a keyed catalog a name that both sides have is the name of exactly one operation, the one of its two entries, and no
other name is; the operations are strictly in order; and a catalog with the same entries in another order is keyed too and
has the same operations, so the same queries and the same client are written for it. Catalogs of root fields are keyed, and
these files are the same in whatever order the root fields are found that has the same last field of every name. -/
theorem operations_canonical :
    (∀ c : Catalog, c.Keyed →
      (∀ n, (c.operations.filter fun op => decide (op.query.name = n)) = (c.operation? n).toList) ∧
      (∀ op ∈ c.operations, op.method.name = op.query.name) ∧
      c.operations.Pairwise Operation.Before ∧
      ∀ c' : Catalog, c'.queries.Perm c.queries → c'.methods.Perm c.methods →
        c'.Keyed ∧ c'.operations = c.operations ∧
        ∀ d d' : Definition, d.catalog = c → d'.catalog = c' → SameSources d d') ∧
    ∀ (idx : Index) (m : Model) (fs : List RootField),
      (Catalog.ofFields idx m fs).Keyed ∧
      ∀ fs', (∀ n, RootField.last? fs' n = RootField.last? fs n) →
        ∀ d d' : Definition, d.catalog = Catalog.ofFields idx m fs → d'.catalog = Catalog.ofFields idx m fs' →
          SameSources d d' := by
  constructor
  · intro c hc
    refine ⟨hc.filter_operations, fun op hop => ?_, hc.pairwise_operations, fun c' hqueries hmethods => ?_⟩
    · exact (hc.names ((hc.mem_operations_iff op).1 hop)).2
    · have hsame := hc.operations_eq_of_perm hqueries hmethods
      refine ⟨hc.of_perm hqueries hmethods, hsame, ?_⟩
      rintro d d' rfl rfl
      exact sameSources_of_operations hsame
  · intro idx m fs
    have hkeyed := Catalog.keyed_ofFields idx m fs
    refine ⟨hkeyed, fun fs' hlast d d' hd hd' => sameSources_of_operations ?_⟩
    obtain ⟨hqueries, hmethods⟩ := Catalog.ofFields_perm hlast idx m
    rw [hd, hd']
    exact hkeyed.operations_eq_of_perm hqueries hmethods

/-- The entry of an operation without arguments. -/
def aviaryQuery (name : String) (kind : OperationKind) : QueryEntry := { name, kind, args := [], fields := [] }

/-- The method of an operation without arguments, whose result is a number. -/
def aviaryMethod (name : String) (kind : OperationKind) : Method :=
  { name, args := [], isAsync := true, kind,
    returnType := ⟨none, "Int", .primitive .numeric, false, false, false, none⟩ }

/-- A catalog with a mutation before queries, a query without a method and a method without a query. -/
def aviary : Catalog where
  queries := ["ring", "wren", "egg", "auk"].map fun n => (n, aviaryQuery n (if n = "ring" then .mutation else .query))
  methods := ["auk", "nest", "ring", "wren"].map fun n => (n, aviaryMethod n (if n = "ring" then .mutation else .query))

/-- A query and a mutation without arguments. -/
def aviaryFields : List RootField :=
  [⟨.query, ⟨"wren", none, [], .named .scalar "Int"⟩⟩, ⟨.mutation, ⟨"ring", none, [], .named .scalar "Int"⟩⟩]

/-- The operations of the aviary and of the aviary listed from its end are the same, and only names of both sides have one.
Root fields of two names may be found in either order. -/
theorem aviary_operations_canonical :
    (∃ c : Catalog, c.queries = aviary.queries.reverse ∧ c.methods = aviary.methods.reverse ∧
      aviary.Keyed ∧ c.operations = aviary.operations ∧ aviary.operations.Pairwise Operation.Before ∧
      (aviary.operations.filter fun op => decide (op.query.name = "auk")) =
        [⟨aviaryQuery "auk" .query, aviaryMethod "auk" .query⟩] ∧
      (aviary.operations.filter fun op => decide (op.query.name = "egg")) = [] ∧
      (aviary.operations.filter fun op => decide (op.query.name = "nest")) = []) ∧
    ∀ (idx : Index) (m m' : Model) (required required' : NameSet),
      SameSources ⟨m, Catalog.ofFields idx m aviaryFields, required⟩
        ⟨m', Catalog.ofFields idx m aviaryFields.reverse, required'⟩ := by
  have hkeyed : aviary.Keyed := ⟨by decide, by decide, by decide, by decide⟩
  obtain ⟨hfilter, -, hpairwise, hsame⟩ := operations_canonical.1 aviary hkeyed
  obtain ⟨-, hreversed, -⟩ := hsame ⟨_, _⟩ (List.reverse_perm _) (List.reverse_perm _)
  refine ⟨⟨_, rfl, rfl, hkeyed, hreversed, hpairwise, hfilter "auk", hfilter "egg", hfilter "nest"⟩, ?_⟩
  have hlast : ∀ n, RootField.last? aviaryFields.reverse n = RootField.last? aviaryFields n := by
    intro n
    by_cases hwren : "wren" = n
    · subst hwren
      rfl
    · by_cases hring : "ring" = n <;> simp [RootField.last?, aviaryFields, hwren, hring]
  intro idx m m' required required'
  exact (operations_canonical.2 idx m aviaryFields).2 _ hlast _ _ rfl rfl

end SdkLoom
