import SdkLoom.Proofs.TypesImport

/-!
# String literals and what they stand for

Values are written into Go sources as interpreted string literals. A scanner of such a literal knows what it has read and
whether a backslash came last. What one character of the value is written as takes it from a state without a backslash to
another one, in which it has read that character too (`OpenLiteral.scan_escapeChar`). So by induction over the value it has
read all of it when it meets the quote at the end, whatever follows. A scanner of a whole source finds in the files of the
queries and of the client the values that were written there and no other literals, as long as what is written outside of
literals begins none. Names of GraphQL do not (`literals_read_back`).
-/

namespace SdkLoom.Go

/-! ## Scanning a literal -/

/-- What a character stands for after a backslash. The escapes that tell the number of a character are left out. -/
def unescape : Char → Option Char
  | 'a' => some '\x07'
  | 'b' => some '\x08'
  | 'f' => some '\x0c'
  | 'n' => some '\n'
  | 'r' => some '\r'
  | 't' => some '\t'
  | 'v' => some '\x0b'
  | '\\' => some '\\'
  | '"' => some '"'
  | _ => none

/-- A literal that is being read: its characters so far, and whether a backslash came last. -/
structure OpenLiteral where
  read : List Char
  escaped : Bool
  deriving DecidableEq, Repr

namespace OpenLiteral

/-- The literal of which only the first quote is read. -/
def start : OpenLiteral := ⟨[], false⟩

/-- Whether a character ends the literal: it is a quote that no backslash escapes. -/
def ends (l : OpenLiteral) (c : Char) : Bool := !l.escaped && c == '"'

/-- The literal with a character that does not end it; there is none for an unknown escape and for the end of the line. -/
def push (l : OpenLiteral) (c : Char) : Option OpenLiteral :=
  if l.escaped then (unescape c).map fun d => ⟨l.read ++ [d], false⟩
  else if c = '\\' then some ⟨l.read, true⟩
  else if c = '\n' then none
  else some ⟨l.read ++ [c], false⟩

/-- The value of the literal if it ends here. -/
def value (l : OpenLiteral) : String := String.ofList l.read

/-- The value of the literal and what follows it. -/
def scan : OpenLiteral → List Char → Option (String × List Char)
  | _, [] => none
  | l, c :: rest => if l.ends c then some (l.value, rest) else (l.push c).bind fun l' => l'.scan rest

/-- What stands for one character is read as that character. -/
theorem scan_escapeChar (read : List Char) (c : Char) (rest : List Char) :
    scan ⟨read, false⟩ (escapeChar c ++ rest) = scan ⟨read ++ [c], false⟩ rest := by
  unfold escapeChar
  split
  -- the three escapes are computed
  · rfl
  · rfl
  · rfl
  next hquote hbackslash hnewline =>
    have hends : ends ⟨read, false⟩ c = false := by simpa [ends] using hquote
    have hpush : push ⟨read, false⟩ c = some ⟨read ++ [c], false⟩ := by
      rw [push, if_neg Bool.false_ne_true, if_neg hbackslash, if_neg hnewline]
    rw [List.singleton_append, scan, hends, if_neg Bool.false_ne_true, hpush, Option.bind_some]

/-- The characters of a value are read back one by one, up to the quote that ends the literal. -/
theorem scan_flatMap_escapeChar (read cs rest : List Char) :
    scan ⟨read, false⟩ (cs.flatMap escapeChar ++ '"' :: rest) = some (String.ofList (read ++ cs), rest) := by
  induction cs generalizing read with
  | nil =>
    rw [List.append_nil]
    rfl
  | cons c cs ih =>
    rw [List.flatMap_cons, List.append_assoc, scan_escapeChar, ih, List.append_assoc, List.singleton_append]

theorem scan_start (v : String) (rest : List Char) :
    start.scan (v.toList.flatMap escapeChar ++ '"' :: rest) = some (v, rest) := by
  rw [start, scan_flatMap_escapeChar, List.nil_append, String.ofList_toList]

end OpenLiteral

/-- The value of the literal at the front of a text, and the text that follows it. -/
def scanLiteral (text : String) : Option (String × String) :=
  match text.toList with
  | '"' :: rest => (OpenLiteral.start.scan rest).map (Prod.map id String.ofList)
  | _ => none

theorem toList_stringLiteral (s : String) : (stringLiteral s).toList = '"' :: (s.toList.flatMap escapeChar ++ ['"']) := by
  rw [stringLiteral, String.toList_ofList, List.cons_append]

/-- A literal is read back, up to its end. -/
theorem scanLiteral_stringLiteral (s t : String) : scanLiteral (stringLiteral s ++ t) = some (s, t) := by
  have htext : (stringLiteral s ++ t).toList = '"' :: (s.toList.flatMap escapeChar ++ '"' :: t.toList) := by
    rw [String.toList_append, toList_stringLiteral, List.cons_append, List.append_assoc, List.singleton_append]
  have hscan : scanLiteral (stringLiteral s ++ t) =
      (OpenLiteral.start.scan (s.toList.flatMap escapeChar ++ '"' :: t.toList)).map (Prod.map id String.ofList) := by
    rw [scanLiteral, htext]
    rfl
  rw [hscan, OpenLiteral.scan_start, Option.map_some, Prod.map_apply, id, String.ofList_toList]

example : scanLiteral "\"\\\\\\\"\\n\" + \"x\"" = some ("\\\"\n", " + \"x\"") := by decide

theorem stringLiteral_append_inj {s t x y : String} (h : stringLiteral s ++ x = stringLiteral t ++ y) : s = t := by
  have hscan := scanLiteral_stringLiteral s x
  rw [h, scanLiteral_stringLiteral] at hscan
  exact (Prod.mk.inj (Option.some.inj hscan)).1.symm

theorem stringLiteral_injective : Function.Injective stringLiteral := by
  intro s t h
  exact stringLiteral_append_inj (congrArg (· ++ "") h)

/-! ## Scanning a source -/

/-- Where a scanner stands in a source: in its code, after a slash there, in a comment up to the end of the line, in a comment
up to its mark or after a star there, in a rune, in a raw string, or in a literal. -/
inductive Mode where
  | code
  | slash
  | lineComment
  | comment
  | star
  | rune (escaped : Bool)
  | raw
  | literal (l : OpenLiteral)
  deriving DecidableEq, Repr

namespace Mode

/-- What a character of the code begins. -/
def start (c : Char) : Mode :=
  if c = '"' then .literal OpenLiteral.start
  else if c = '\x60' then .raw
  else if c = '\'' then .rune false
  else if c = '/' then .slash
  else .code

/-- One more character, with the value of the literal if it ends one. -/
def step : Mode → Char → Option (Mode × List String)
  | .code, c => some (start c, [])
  | .slash, c => some (if c = '/' then .lineComment else if c = '*' then .comment else start c, [])
  | .lineComment, c => some (if c = '\n' then .code else .lineComment, [])
  | .comment, c => some (if c = '*' then .star else .comment, [])
  | .star, c => some (if c = '/' then .code else if c = '*' then .star else .comment, [])
  | .rune escaped, c =>
    if c = '\n' then none
    else if escaped then some (.rune false, [])
    else some (if c = '\\' then .rune true else if c = '\'' then .code else .rune false, [])
  | .raw, c => some (if c = '\x60' then .code else .raw, [])
  | .literal l, c => if l.ends c then some (.code, [l.value]) else (l.push c).map fun l' => (.literal l', [])

/-- All characters of a text, with the values of the literals that end there. -/
def run : Mode → List Char → Option (Mode × List String)
  | m, [] => some (m, [])
  | m, c :: cs => (m.step c).bind fun r => (r.1.run cs).map (Prod.map id (r.2 ++ ·))

/-- Whether a source may end here. -/
def isFinal : Mode → Bool
  | .code => true
  | .slash => true
  | .lineComment => true
  | _ => false

theorem map_nil_append (r : Option (Mode × List String)) : r.map (Prod.map id ([] ++ ·)) = r := by
  cases r <;> rfl

theorem run_append (m : Mode) (cs ds : List Char) :
    m.run (cs ++ ds) = (m.run cs).bind fun r => (r.1.run ds).map (Prod.map id (r.2 ++ ·)) := by
  induction cs generalizing m with
  | nil => exact (map_nil_append _).symm
  | cons c cs ih =>
    rw [List.cons_append, run, run, Option.bind_assoc]
    refine Option.bind_congr fun r _ => ?_
    rw [ih, Option.map_bind, Option.bind_map]
    refine Option.bind_congr fun r' _ => ?_
    rw [Function.comp_apply, Option.map_map, Function.comp_apply]
    exact congrArg (Option.map · _) (funext fun r'' => Prod.ext rfl (List.append_assoc ..).symm)

/-- A literal that can be read is one of the literals of the source, and the code goes on after it. -/
theorem run_literal {l : OpenLiteral} {cs rest : List Char} {v : String} (h : l.scan cs = some (v, rest)) :
    (Mode.literal l).run cs = (Mode.code.run rest).map (Prod.map id (v :: ·)) := by
  induction cs generalizing l with
  | nil => cases h
  | cons c cs ih =>
    rw [OpenLiteral.scan] at h
    rw [run, step]
    split at h
    next hends =>
      obtain ⟨rfl, rfl⟩ := Prod.mk.inj (Option.some.inj h)
      rw [if_pos hends]
      rfl
    next hends =>
      obtain ⟨l', hpush, hscan⟩ := Option.bind_eq_some_iff.1 h
      rw [if_neg hends, hpush, Option.map_some, Option.bind_some, ih hscan, Option.map_map]
      rfl

/-- A raw string goes on up to the next backquote. -/
theorem run_raw {cs : List Char} (h : '\x60' ∉ cs) (rest : List Char) :
    Mode.raw.run (cs ++ '\x60' :: rest) = Mode.code.run rest := by
  induction cs with
  | nil => exact map_nil_append _
  | cons c cs ih =>
    rw [List.mem_cons, not_or] at h
    rw [List.cons_append, run, step, if_neg (Ne.symm h.1), Option.bind_some, ih h.2, map_nil_append]

end Mode

/-- The values of the interpreted string literals of a source, in order. -/
def stringLiterals (source : String) : Option (List String) :=
  (Mode.code.run source.toList).bind fun r => if r.1.isFinal then some r.2 else none

/-! ## Parts of a source -/

/-- A part of a source: a text of its code, or a value that is written as a literal. -/
inductive Part where
  | code (text : String)
  | literal (value : String)

namespace Part

/-- The text of a part. -/
def text : Part → String
  | .code s => s
  | .literal v => stringLiteral v

/-- The value of a part, if it has one. -/
def value? : Part → Option String
  | .code _ => none
  | .literal v => some v

/-- The text of parts one after the other. -/
def joined (parts : List Part) : String := String.join (parts.map text)

/-- The values of parts. -/
def values (parts : List Part) : List String := parts.filterMap value?

@[simp] theorem joined_nil : joined [] = "" := rfl

@[simp] theorem joined_cons (q : Part) (parts : List Part) : joined (q :: parts) = q.text ++ joined parts := by
  rw [joined, List.map_cons, String.join_cons, joined]

@[simp] theorem joined_append (parts parts' : List Part) : joined (parts ++ parts') = joined parts ++ joined parts' := by
  induction parts with
  | nil => rw [List.nil_append, joined_nil, String.empty_append]
  | cons q parts ih => rw [List.cons_append, joined_cons, joined_cons, ih, String.append_assoc]

theorem joined_flatMap {α : Type} (f : α → List Part) (xs : List α) :
    joined (xs.flatMap f) = String.join (xs.map fun x => joined (f x)) := by
  induction xs with
  | nil => rfl
  | cons x xs ih => rw [List.flatMap_cons, joined_append, ih, List.map_cons, String.join_cons]

@[simp] theorem values_nil : values [] = [] := rfl

@[simp] theorem values_code_cons (s : String) (parts : List Part) : values (code s :: parts) = values parts := rfl

@[simp] theorem values_literal_cons (v : String) (parts : List Part) : values (literal v :: parts) = v :: values parts := rfl

@[simp] theorem values_append (parts parts' : List Part) : values (parts ++ parts') = values parts ++ values parts' :=
  List.filterMap_append

theorem values_flatMap {α : Type} (f : α → List Part) (xs : List α) :
    values (xs.flatMap f) = xs.flatMap fun x => values (f x) := by
  induction xs with
  | nil => rfl
  | cons x xs ih => rw [List.flatMap_cons, values_append, ih, List.flatMap_cons]

/-- The parts of each of some things, with a text between any two of them. -/
def separated {α : Type} (sep : String) (f : α → List Part) (xs : List α) : List Part := [code sep].intercalate (xs.map f)

theorem separated_cons_cons {α : Type} (sep : String) (f : α → List Part) (x y : α) (xs : List α) :
    separated sep f (x :: y :: xs) = f x ++ code sep :: separated sep f (y :: xs) := by
  rw [separated, List.map_cons, List.map_cons, List.intercalate_cons_cons, List.append_assoc, List.singleton_append,
    separated, List.map_cons]

theorem separated_singleton {α : Type} (sep : String) (f : α → List Part) (x : α) : separated sep f [x] = f x :=
  List.intercalate_singleton

theorem joined_separated {α : Type} (sep : String) (f : α → List Part) (xs : List α) :
    joined (separated sep f xs) = sep.intercalate (xs.map fun x => joined (f x)) := by
  induction xs with
  | nil => rfl
  | cons x xs ih =>
    cases xs with
    | nil => rw [separated_singleton, List.map_singleton, String.intercalate_singleton]
    | cons y xs =>
      rw [separated_cons_cons, joined_append, joined_cons, ih, List.map_cons, List.map_cons, List.map_cons,
        String.intercalate_cons_cons, String.append_assoc]
      rfl

theorem values_separated {α : Type} (sep : String) (f : α → List Part) (xs : List α) :
    values (separated sep f xs) = xs.flatMap fun x => values (f x) := by
  induction xs with
  | nil => rfl
  | cons x xs ih =>
    cases xs with
    | nil => rw [separated_singleton, List.flatMap_singleton]
    | cons y xs => rw [List.flatMap_cons, separated_cons_cons, values_append, values_code_cons, ih]

end Part

/-- A source has literals of these values in order: where the literal of a value is written, the scanner reads the value and
stops where the literal ends, and the other values are in what is left. -/
inductive Holds : String → List String → Prop
  | code (source : String) : Holds source []
  | literal (code : String) {rest v : String} {vs : List String} (h : scanLiteral (stringLiteral v ++ rest) = some (v, rest))
      (hrest : Holds rest vs) : Holds (code ++ (stringLiteral v ++ rest)) (v :: vs)

theorem Holds.code_append {source : String} {vs : List String} (h : Holds source vs) (code : String) :
    Holds (code ++ source) vs := by
  cases h with
  | code => exact .code _
  | literal code' hscan hrest =>
    rw [← String.append_assoc]
    exact .literal _ hscan hrest

/-- A source that is written in parts has literals of their values. -/
theorem holds_joined (parts : List Part) : Holds (Part.joined parts) (Part.values parts) := by
  induction parts with
  | nil => exact .code _
  | cons q parts ih =>
    rw [Part.joined_cons]
    cases q with
    | code s => exact ih.code_append s
    | literal v =>
      have h := Holds.literal "" (scanLiteral_stringLiteral v (Part.joined parts)) ih
      rw [String.empty_append] at h
      exact h

/-! ## Code that is closed -/

/-- A text of the code that ends in the code and has no literals. -/
def Closed (s : String) : Prop := Mode.code.run s.toList = some (.code, [])

instance (s : String) : Decidable (Closed s) := inferInstanceAs (Decidable (Mode.code.run s.toList = some (.code, [])))

/-- The code of a part is closed. -/
def Part.Closed : Part → Prop
  | .code s => Go.Closed s
  | .literal _ => True

instance : (q : Part) → Decidable q.Closed
  | .code s => inferInstanceAs (Decidable (Go.Closed s))
  | .literal _ => inferInstanceAs (Decidable True)

theorem Mode.run_stringLiteral (v : String) (rest : List Char) :
    Mode.code.run ((stringLiteral v).toList ++ rest) = (Mode.code.run rest).map (Prod.map id (v :: ·)) := by
  have hstep : Mode.code.step '"' = some (.literal OpenLiteral.start, []) := rfl
  rw [toList_stringLiteral, List.cons_append, List.append_assoc, List.singleton_append, run, hstep, Option.bind_some,
    run_literal (OpenLiteral.scan_start v rest), map_nil_append]

theorem Mode.run_joined {parts : List Part} (h : ∀ q ∈ parts, q.Closed) :
    Mode.code.run (Part.joined parts).toList = some (.code, Part.values parts) := by
  induction parts with
  | nil => rfl
  | cons q parts ih =>
    obtain ⟨hq, hparts⟩ := List.forall_mem_cons.1 h
    rw [Part.joined_cons, String.toList_append]
    cases q with
    | code s =>
      rw [Part.text, run_append, show Mode.code.run s.toList = _ from hq, Option.bind_some, ih hparts]
      rfl
    | literal v =>
      rw [Part.text, run_stringLiteral, ih hparts]
      rfl

/-- If the code of all parts is closed, the literals of a source are those of its values. -/
theorem stringLiterals_joined {parts : List Part} (h : ∀ q ∈ parts, q.Closed) :
    stringLiterals (Part.joined parts) = some (Part.values parts) := by
  rw [stringLiterals, Mode.run_joined h, Option.bind_some]
  rfl

theorem Part.closed_separated {α : Type} {sep : String} (hsep : Go.Closed sep) {f : α → List Part} {xs : List α}
    (h : ∀ x ∈ xs, ∀ q ∈ f x, q.Closed) : ∀ q ∈ separated sep f xs, q.Closed := by
  induction xs with
  | nil => exact List.forall_mem_nil _
  | cons x xs ih =>
    obtain ⟨hx, hxs⟩ := List.forall_mem_cons.1 h
    cases xs with
    | nil =>
      rw [separated_singleton]
      exact hx
    | cons y xs =>
      rw [separated_cons_cons]
      exact List.forall_mem_append.2 ⟨hx, List.forall_mem_cons.2 ⟨hsep, ih hxs⟩⟩

theorem Closed.append {a b : String} (ha : Closed a) (hb : Closed b) : Closed (a ++ b) := by
  rw [Closed, String.toList_append, Mode.run_append, ha, Option.bind_some, hb]
  rfl

/-- A text that is spelled out is checked character by character. -/
theorem closed_ofList {cs : List Char} (h : Mode.code.run cs = some (.code, [])) : Closed (String.ofList cs) := by
  rw [Closed, String.toList_ofList, h]

theorem closed_join {ts : List String} (h : ∀ t ∈ ts, Closed t) : Closed (String.join ts) := by
  induction ts with
  | nil => rfl
  | cons t ts ih =>
    obtain ⟨ht, hts⟩ := List.forall_mem_cons.1 h
    rw [String.join_cons]
    exact ht.append (ih hts)

theorem closed_intercalate {sep : String} (hsep : Closed sep) {ts : List String} (h : ∀ t ∈ ts, Closed t) :
    Closed (sep.intercalate ts) := by
  induction ts with
  | nil => rfl
  | cons t ts ih =>
    obtain ⟨ht, hts⟩ := List.forall_mem_cons.1 h
    cases ts with
    | nil =>
      rw [String.intercalate_singleton]
      exact ht
    | cons u ts =>
      rw [String.intercalate_cons_cons]
      exact (ht.append hsep).append (ih hts)

/-- A text has no character that begins a literal or a comment. -/
def Plain (s : String) : Prop := s.toList.all (fun c => Mode.start c == .code) = true

instance (s : String) : Decidable (Plain s) := inferInstanceAs (Decidable (_ = true))

theorem plain_iff (s : String) : Plain s ↔ ∀ c ∈ s.toList, Mode.start c = .code := by
  simp [Plain]

theorem Plain.append {a b : String} (ha : Plain a) (hb : Plain b) : Plain (a ++ b) := by
  rw [Plain, String.toList_append, List.all_append, Bool.and_eq_true]
  exact ⟨ha, hb⟩

theorem Plain.closed {s : String} (h : Plain s) : Closed s := by
  rw [plain_iff] at h
  unfold Closed
  generalize s.toList = cs at h
  induction cs with
  | nil => rfl
  | cons c cs ih =>
    rw [Mode.run, Mode.step, h c List.mem_cons_self, Option.bind_some, ih fun d hd => h d (List.mem_cons_of_mem _ hd)]
    rfl

theorem start_of_isNameChar {c : Char} (h : Sdl.Token.isNameChar c = true) : Mode.start c = .code := by
  have hother : ∀ d, Sdl.Token.isNameChar d = false → c ≠ d := by
    rintro d hd rfl
    rw [h] at hd
    cases hd
  rw [Mode.start, if_neg (hother _ (by decide)), if_neg (hother _ (by decide)), if_neg (hother _ (by decide)),
    if_neg (hother _ (by decide))]

theorem plain_of_isName {s : String} (h : Sdl.isName s = true) : Plain s :=
  (plain_iff s).2 fun c hc => start_of_isNameChar (Sdl.isNameChar_of_isName h c hc)

theorem Plain.exported {s : String} (h : Plain s) : Plain (exported s) := by
  rw [plain_iff] at h ⊢
  cases hs : s.toList with
  | nil =>
    have hempty : s = "" := String.toList_inj.1 hs
    rw [hempty]
    exact List.forall_mem_nil _
  | cons c rest =>
    rw [hs] at h
    cases hc : c.isAlpha with
    | true =>
      have hletter : c.toUpper.isAlpha = true := (Bool.or_eq_true _ _).mpr (.inl (isUpper_toUpper_of_isAlpha hc))
      have hname : Sdl.Token.isNameChar c.toUpper = true := by
        simp [Sdl.Token.isNameChar, Char.isAlphanum, hletter]
      rw [toList_exported_of_letter hs hc]
      exact List.forall_mem_cons.2 ⟨start_of_isNameChar hname, (List.forall_mem_cons.1 h).2⟩
    | false =>
      rw [toList_exported_of_other hs hc]
      exact List.forall_mem_cons.2 ⟨rfl, h⟩

theorem Plain.param {s : String} (h : Plain s) : Plain (param s) := by
  unfold Go.param
  split
  · exact h.append (by decide)
  · exact h

/-- The tag of a field is a raw string. -/
theorem Plain.closed_jsonTag {s : String} (h : Plain s) : Closed (jsonTag s) := by
  have htag : (jsonTag s).toList = '\x60' :: (("json:\"" ++ s ++ "\"").toList ++ ['\x60']) := by
    simp [jsonTag]
  have hbackquote : '\x60' ∉ ("json:\"" ++ s ++ "\"").toList := by
    intro hmem
    rw [String.toList_append, String.toList_append, List.mem_append, List.mem_append] at hmem
    rcases hmem with (hmem | hmem) | hmem
    · exact absurd hmem (by decide)
    · cases (plain_iff s).1 h _ hmem
    · exact absurd hmem (by decide)
  have hstep : Mode.code.step '\x60' = some (.raw, []) := rfl
  rw [Closed, htag, Mode.run, hstep, Option.bind_some, Mode.run_raw hbackquote]
  rfl

theorem closed_padCell {cell : String} (h : Closed cell) (width : Nat) : Closed (padCell cell width) := by
  refine h.append (Plain.closed ((plain_iff _).2 fun c hc => ?_))
  rw [String.toList_ofList] at hc
  rw [(List.mem_replicate.1 hc).2]
  rfl

theorem closed_rowText (rows : List (List String)) (k : Nat) {row : List String} (h : ∀ cell ∈ row, Closed cell) :
    Closed (rowText rows k row) := by
  fun_induction rowText rows k row with
  | case1 => rfl
  | case2 k cell => exact h cell List.mem_cons_self
  | case3 k cell rest _ ih =>
    obtain ⟨hcell, hrest⟩ := List.forall_mem_cons.1 h
    exact ((closed_padCell hcell _).append (by decide)).append (ih hrest)

theorem closed_columns {rows : List (List String)} (h : ∀ row ∈ rows, ∀ cell ∈ row, Closed cell) :
    Closed (columns rows) := by
  refine closed_join fun line hline => ?_
  obtain ⟨row, hrow, rfl⟩ := List.mem_map.1 hline
  exact (Closed.append (by decide) (closed_rowText rows 0 (h row hrow))).append (by decide)

theorem closed_structText {ident : String} (hident : Closed ident) {fs : List StructField}
    (hfields : ∀ f ∈ fs, Closed f.ident ∧ Closed f.type.text ∧ Plain f.json) : Closed (structText ident fs) := by
  have hrows : Closed (fieldRows fs) := by
    refine closed_columns fun row hrow => ?_
    obtain ⟨f, hf, rfl⟩ := List.mem_map.1 hrow
    obtain ⟨hname, htype, htag⟩ := hfields f hf
    exact List.forall_mem_cons.2 ⟨hname, List.forall_mem_cons.2 ⟨htype, List.forall_mem_singleton.2 htag.closed_jsonTag⟩⟩
  exact (((Closed.append (by decide) hident).append (by decide)).append hrows).append (by decide)

/-! ## The file of the queries -/

/-- The parts of the declaration of a query. -/
def queryParts (op : Operation) : List Part :=
  .code ("var " ++ queryVariable op.query.name ++ " = QueryAndFields\x7b") :: .literal op.queryText ::
    .code ", []string\x7b" :: (Part.separated ", " (fun n => [.literal n]) op.defaultSelection ++ [Part.code "\x7d\x7d\n"])

theorem joined_queryParts (op : Operation) : Part.joined (queryParts op) = queryDecl op := by
  simp [queryParts, queryDecl, Part.text, Part.joined_separated, String.append_assoc]

/-- The values that the declaration of a query has: the text of the operation and its selection by default. -/
def queryValues (op : Operation) : List String := op.queryText :: op.defaultSelection

theorem values_queryParts (op : Operation) : Part.values (queryParts op) = queryValues op := by
  simp [queryParts, queryValues, Part.values_separated]

theorem closed_queryParts {op : Operation} (h : Plain op.query.name) : ∀ q ∈ queryParts op, q.Closed := by
  have hvariable : Closed ("var " ++ queryVariable op.query.name ++ " = QueryAndFields\x7b") :=
    (Closed.append (by decide) (Closed.append (by decide) h.exported.closed)).append (by decide)
  have hcomma : Closed ", " ∧ Closed ", []string\x7b" ∧ Closed "\x7d\x7d\n" := by decide
  have hselection : ∀ q ∈ Part.separated ", " (fun n => [Part.literal n]) op.defaultSelection, q.Closed :=
    Part.closed_separated hcomma.1 fun n _ => List.forall_mem_singleton.2 trivial
  simp only [queryParts, List.forall_mem_append, List.forall_mem_cons]
  exact ⟨hvariable, trivial, hcomma.2.1, hselection, hcomma.2.2, List.forall_mem_nil _⟩

namespace Package

/-- What the file of the queries has between its import and the placeholder. -/
def renderOpening : String :=
  "\n\n" ++
  "// QueryAndFields pairs an operation with its default selection.\n" ++
  "type QueryAndFields struct \x7b\n" ++
  columns [["Query", "string"], ["Fields", "[]string"]] ++
  "\x7d\n\n" ++
  "// Render fills the selection placeholder, using Fields when none are given.\n" ++
  "func (q QueryAndFields) Render(selections ...string) string \x7b\n" ++
  "\tif len(selections) == 0 \x7b\n\t\tselections = q.Fields\n\t\x7d\n" ++
  "\treturn strings.Replace(q.Query, "

/-- The parts of the file of the queries before the queries. -/
def queriesPreambleParts : List Part :=
  [.code (header ++ "package sdk\n\nimport "), .literal "strings", .code renderOpening, .literal selectionPlaceholder,
    .code ", strings.Join(selections, ", .literal " ", .code "), 1)\n\x7d\n"]

theorem joined_queriesPreambleParts : Part.joined queriesPreambleParts = header ++ queriesPreamble := by decide +kernel

theorem closed_header : Closed header := closed_ofList (by decide +kernel)

theorem closed_renderOpening : Closed renderOpening := by
  have hfields : Closed (columns [["Query", "string"], ["Fields", "[]string"]]) := closed_columns (by decide)
  unfold renderOpening
  -- no unfolding here: the texts between the seams stay whole
  repeat' with_reducible apply Closed.append
  any_goals with_reducible exact closed_ofList (by decide +kernel)
  exact hfields

theorem closed_queriesPreambleParts : ∀ q ∈ queriesPreambleParts, q.Closed := by
  have himport : Closed (header ++ "package sdk\n\nimport ") := closed_header.append (by decide)
  have hcall : Closed ", strings.Join(selections, " ∧ Closed "), 1)\n\x7d\n" := by decide
  simp only [queriesPreambleParts, List.forall_mem_cons]
  exact ⟨himport, trivial, closed_renderOpening, trivial, hcall.1, trivial, hcall.2, List.forall_mem_nil _⟩

/-- The parts of the file of the queries. -/
def queriesParts (p : Package) : List Part :=
  queriesPreambleParts ++ p.operations.flatMap fun op => .code "\n" :: queryParts op

theorem joined_queriesParts (p : Package) : Part.joined p.queriesParts = p.queriesFile := by
  rw [queriesParts, Part.joined_append, joined_queriesPreambleParts, Part.joined_flatMap, queriesFile]
  simp only [Part.joined_cons, Part.text, joined_queryParts]

/-- The values that the file of the queries has. -/
def queriesValues (p : Package) : List String :=
  ["strings", selectionPlaceholder, " "] ++ p.operations.flatMap queryValues

theorem values_queriesParts (p : Package) : Part.values p.queriesParts = p.queriesValues := by
  simp [queriesParts, queriesPreambleParts, queriesValues, Part.values_flatMap, values_queryParts]

theorem closed_queriesParts {p : Package} (h : ∀ op ∈ p.operations, Plain op.query.name) :
    ∀ q ∈ p.queriesParts, q.Closed := by
  refine List.forall_mem_append.2 ⟨closed_queriesPreambleParts, List.forall_mem_flatMap.2 fun op hop => ?_⟩
  exact List.forall_mem_cons.2 ⟨by decide, closed_queryParts (h op hop)⟩

end Package

/-! ## The file of the client -/

namespace MethodDecl

/-- The text of the declarations before what tells the executor about the call. -/
def beforeMeta (m : MethodDecl) : String :=
  structText m.requestIdent m.requestFields ++ "\n" ++ structText m.responseIdent m.responseFields ++ "\n" ++
    "func (s *Sdk) " ++ m.ident ++ "(" ++ String.intercalate ", " m.params ++ ") (" ++ m.result.text ++ ", error) \x7b\n" ++
    "\trequest := " ++ m.requestIdent ++ "\x7b" ++ m.assignments ++ "\x7d\n" ++
    "\tmeta := "

/-- The text of the declarations after it. -/
def afterMeta (m : MethodDecl) : String :=
  "\n" ++
    "\tvar response " ++ m.responseIdent ++ "\n" ++
    "\terr := s.Executor." ++ m.executorCall ++ "(ctx, " ++ queryVariable m.name ++
    ".Render(selections...), request, meta, &response)\n" ++
    "\treturn response." ++ m.ident ++ ", err\n" ++
    "\x7d\n"

theorem text_eq (m : MethodDecl) : m.text = m.beforeMeta ++ m.metaText ++ m.afterMeta := by
  unfold text functionText beforeMeta afterMeta
  simp only [String.append_assoc]

/-- The things that the executor is told about a call, each with its label. -/
def metaItems (m : MethodDecl) : List (String × Part) :=
  [("Name: ", .literal m.name), ("Type: ", .literal m.plan.style.tag), ("Model: ", .literal m.plan.model)] ++
    m.plan.key.toList.flatMap (fun k => [("Key: ", Part.literal k), ("Value: ", Part.code (param k))]) ++
    m.plan.filter.toList.map (fun b => ("By: ", Part.literal b))

/-- The parts of what tells the executor about a call. -/
def metaParts (m : MethodDecl) : List Part :=
  .code "CallMeta\x7b" :: (Part.separated ", " (fun item => [.code item.1, item.2]) m.metaItems ++ [Part.code "\x7d"])

theorem joined_metaParts (m : MethodDecl) : Part.joined m.metaParts = m.metaText := by
  rw [metaParts, Part.joined_cons, Part.joined_append, Part.joined_separated, metaItems, metaText]
  cases m.plan.key <;> cases m.plan.filter <;> simp [Part.text, String.append_assoc]

/-- The values that tell the executor about a call. -/
def metaValues (m : MethodDecl) : List String :=
  [m.name, m.plan.style.tag, m.plan.model] ++ m.plan.key.toList ++ m.plan.filter.toList

theorem values_metaParts (m : MethodDecl) : Part.values m.metaParts = m.metaValues := by
  rw [metaParts, Part.values_code_cons, Part.values_append, Part.values_separated, metaItems, metaValues]
  cases m.plan.key <;> cases m.plan.filter <;> simp

/-- The parts of the declarations of an operation. -/
def parts (m : MethodDecl) : List Part := .code m.beforeMeta :: (m.metaParts ++ [Part.code m.afterMeta])

theorem joined_parts (m : MethodDecl) : Part.joined m.parts = m.text := by
  simp [parts, Part.text, joined_metaParts, text_eq, String.append_assoc]

theorem values_parts (m : MethodDecl) : Part.values m.parts = m.metaValues := by
  simp [parts, values_metaParts]

/-- What the declarations of an operation have outside of literals begins neither literals nor comments. -/
structure Plain (m : MethodDecl) : Prop where
  name : Go.Plain m.name
  args : ∀ a ∈ m.args, Go.Plain a.name ∧ Go.Plain a.type.text
  result : Go.Plain m.result.text
  key : ∀ k ∈ m.plan.key, Go.Plain k

section Plain

variable {m : MethodDecl} (h : m.Plain)

include h

theorem Plain.closed_ident : Closed m.ident := h.name.exported.closed

theorem Plain.closed_requestIdent : Closed m.requestIdent := h.closed_ident.append (by decide)

theorem Plain.closed_responseIdent : Closed m.responseIdent := h.closed_ident.append (by decide)

theorem Plain.closed_params : Closed (", ".intercalate m.params) := by
  refine closed_intercalate (by decide) fun t ht => ?_
  simp only [params, List.mem_append, List.mem_singleton, List.mem_map] at ht
  rcases ht with (rfl | ⟨a, ha, rfl⟩) | rfl
  · decide
  · obtain ⟨hname, htype⟩ := h.args a ha
    exact (hname.param.closed.append (by decide)).append htype.closed
  · decide

theorem Plain.closed_assignments : Closed m.assignments := by
  refine closed_intercalate (by decide) fun t ht => ?_
  obtain ⟨a, ha, rfl⟩ := List.mem_map.1 ht
  have hname := (h.args a ha).1
  exact (hname.exported.closed.append (by decide)).append hname.param.closed

theorem Plain.closed_structs :
    Closed (structText m.requestIdent m.requestFields) ∧ Closed (structText m.responseIdent m.responseFields) := by
  refine ⟨closed_structText h.closed_requestIdent fun f hf => ?_, closed_structText h.closed_responseIdent fun f hf => ?_⟩
  · obtain ⟨a, ha, rfl⟩ := List.mem_map.1 hf
    obtain ⟨hname, htype⟩ := h.args a ha
    exact ⟨hname.exported.closed, htype.closed, hname⟩
  · rw [List.mem_singleton.1 hf]
    exact ⟨h.closed_ident, h.result.closed, h.name⟩

theorem Plain.closed_beforeMeta : Closed m.beforeMeta := by
  obtain ⟨hrequest, hresponse⟩ := h.closed_structs
  unfold beforeMeta
  repeat' with_reducible apply Closed.append
  any_goals with_reducible exact closed_ofList (by decide +kernel)
  · exact hrequest
  · exact hresponse
  · exact h.closed_ident
  · exact h.closed_params
  · exact h.result.closed
  · exact h.closed_requestIdent
  · exact h.closed_assignments

theorem Plain.closed_afterMeta : Closed m.afterMeta := by
  have hcall : Closed m.executorCall := by
    unfold executorCall
    split <;> decide
  have hvariable : Closed (queryVariable m.name) := Closed.append (by decide) h.closed_ident
  unfold afterMeta
  repeat' with_reducible apply Closed.append
  any_goals with_reducible exact closed_ofList (by decide +kernel)
  · exact h.closed_responseIdent
  · exact hcall
  · exact hvariable
  · exact h.closed_ident

theorem Plain.closed_metaItems : ∀ item ∈ m.metaItems, Closed item.1 ∧ item.2.Closed := by
  refine List.forall_mem_append.2 ⟨List.forall_mem_append.2 ⟨?_, List.forall_mem_flatMap.2 fun k hk => ?_⟩, ?_⟩
  · have hlabels : Closed "Name: " ∧ Closed "Type: " ∧ Closed "Model: " := by decide
    simp only [List.forall_mem_cons]
    exact ⟨⟨hlabels.1, trivial⟩, ⟨hlabels.2.1, trivial⟩, ⟨hlabels.2.2, trivial⟩, List.forall_mem_nil _⟩
  · have hlabels : Closed "Key: " ∧ Closed "Value: " := by decide
    have hvalue : Closed (Go.param k) := (h.key k (Option.mem_toList.1 hk)).param.closed
    simp only [List.forall_mem_cons]
    exact ⟨⟨hlabels.1, trivial⟩, ⟨hlabels.2, hvalue⟩, List.forall_mem_nil _⟩
  · have hlabel : Closed "By: " := by decide
    intro item hitem
    obtain ⟨b, -, rfl⟩ := List.mem_map.1 hitem
    exact ⟨hlabel, trivial⟩

theorem Plain.closed_parts : ∀ q ∈ m.parts, q.Closed := by
  have hfixed : Closed "CallMeta\x7b" ∧ Closed ", " ∧ Closed "\x7d" := by decide
  have hitems : ∀ q ∈ Part.separated ", " (fun item => [.code item.1, item.2]) m.metaItems, q.Closed := by
    refine Part.closed_separated hfixed.2.1 fun item hitem => ?_
    obtain ⟨hlabel, hpart⟩ := h.closed_metaItems item hitem
    exact List.forall_mem_cons.2 ⟨hlabel, List.forall_mem_singleton.2 hpart⟩
  simp only [parts, metaParts, List.forall_mem_cons, List.forall_mem_append]
  exact ⟨h.closed_beforeMeta, ⟨hfixed.1, hitems, hfixed.2.2, List.forall_mem_nil _⟩, h.closed_afterMeta,
    List.forall_mem_nil _⟩

end Plain

end MethodDecl

namespace Package

/-- The parts of an import declaration. -/
def importParts (groups : List (List String)) : List Part :=
  .code "import (\n" :: (Part.separated "\n" (List.flatMap fun path => [.code "\t", .literal path, .code "\n"]) groups ++
    [Part.code ")\n\n"])

theorem joined_importParts (groups : List (List String)) : Part.joined (importParts groups) = importDecl groups := by
  simp [importParts, importDecl, Part.joined_separated, Part.joined_flatMap, Part.text, String.append_assoc]

theorem values_importParts (groups : List (List String)) : Part.values (importParts groups) = groups.flatten := by
  simp [importParts, Part.values_separated, Part.values_flatMap]

theorem closed_importParts (groups : List (List String)) : ∀ q ∈ importParts groups, q.Closed := by
  have hfixed : Closed "import (\n" ∧ Closed "\t" ∧ Closed "\n" ∧ Closed ")\n\n" := by decide
  have hpaths : ∀ q ∈ Part.separated "\n" (List.flatMap fun path => [.code "\t", .literal path, .code "\n"]) groups,
      q.Closed := by
    refine Part.closed_separated hfixed.2.2.1 fun paths _ => List.forall_mem_flatMap.2 fun path _ => ?_
    simp only [List.forall_mem_cons]
    exact ⟨hfixed.2.1, trivial, hfixed.2.2.1, List.forall_mem_nil _⟩
  simp only [importParts, List.forall_mem_cons, List.forall_mem_append]
  exact ⟨hfixed.1, hpaths, hfixed.2.2.2, List.forall_mem_nil _⟩

/-- What the client imports, by groups. -/
def importGroups (p : Package) (module : String) : List (List String) :=
  if mentions p.methodsText then withTypes module else withoutTypes

/-- The parts of the file of the client in a module. -/
def clientParts (p : Package) (module : String) : List Part :=
  .code (header ++ "package sdk\n\n") :: (importParts (p.importGroups module) ++
    .code clientPreamble :: p.methods.flatMap fun m => .code "\n" :: m.parts)

theorem joined_clientParts (p : Package) (module : String) : Part.joined (p.clientParts module) = p.clientFile module := by
  have hmethods : Part.joined (p.methods.flatMap fun m => .code "\n" :: m.parts) = p.methodsText := by
    rw [Part.joined_flatMap, methodsText]
    simp only [Part.joined_cons, Part.text, MethodDecl.joined_parts]
  rw [clientFile, imports_eq, clientParts, Part.joined_cons, Part.joined_append, Part.joined_cons, hmethods,
    joined_importParts, importGroups]
  simp only [Part.text, String.append_assoc]

/-- The values that the file of the client in a module has. -/
def clientValues (p : Package) (module : String) : List String :=
  "context" :: ((if mentions p.methodsText then [typesImport module] else []) ++ p.methods.flatMap MethodDecl.metaValues)

theorem values_clientParts (p : Package) (module : String) : Part.values (p.clientParts module) = p.clientValues module := by
  have himports : (p.importGroups module).flatten =
      "context" :: if mentions p.methodsText then [typesImport module] else [] := by
    unfold importGroups
    split <;> rfl
  simp [clientParts, clientValues, values_importParts, himports, Part.values_flatMap, MethodDecl.values_parts]

theorem closed_clientPreamble : Closed clientPreamble := by
  have hmeta : Closed (columns [["Name", "string"], ["Type", "string"], ["Model", "string"], ["Key", "string"],
    ["Value", "interface\x7b\x7d"], ["By", "string"]]) := closed_columns (by decide)
  have hsdk : Closed (columns [["Env", "string"], ["Executor", "Executor"]]) := closed_columns (by decide)
  unfold clientPreamble
  repeat' with_reducible apply Closed.append
  any_goals with_reducible exact closed_ofList (by decide +kernel)
  · exact hmeta
  · exact hsdk

theorem closed_clientParts {p : Package} (h : ∀ m ∈ p.methods, m.Plain) (module : String) :
    ∀ q ∈ p.clientParts module, q.Closed := by
  have hfront : Closed (header ++ "package sdk\n\n") := closed_header.append (by decide)
  have hmethods : ∀ q ∈ (p.methods.flatMap fun m => .code "\n" :: m.parts), q.Closed :=
    List.forall_mem_flatMap.2 fun m hm => List.forall_mem_cons.2 ⟨by decide, (h m hm).closed_parts⟩
  simp only [clientParts, List.forall_mem_cons, List.forall_mem_append]
  exact ⟨hfront, closed_importParts _, closed_clientPreamble, hmethods⟩

/-- What a package has outside of literals begins neither literals nor comments. -/
structure Plain (p : Package) : Prop where
  operations : ∀ op ∈ p.operations, Go.Plain op.query.name
  methods : ∀ m ∈ p.methods, m.Plain

end Package

/-! ## Names of GraphQL -/

theorem plain_ofDescriptor {ps : Primitives} (hps : ∀ n, Plain (ps.get n)) {d : Descriptor}
    (hd : Sdl.isName d.gqlType = true) : Plain (TypeExpr.ofDescriptor ps typesQualifier none d).text := by
  have helement : Plain (TypeExpr.element ps typesQualifier d).text := by
    unfold TypeExpr.element
    split
    · exact hps _
    · exact Plain.append (by decide) (plain_of_isName hd).exported
  unfold TypeExpr.ofDescriptor
  split
  · exact Plain.append (by decide) helement
  · exact helement

theorem isName_describeRef {r : TypeRef} (h : r.Named) (ix : Index) : Sdl.isName (ix.describeRef r).gqlType = true := by
  obtain ⟨n, hleaf, hn⟩ := h
  have hname := (ix.describeRef_core r).1
  rw [hleaf] at hname
  exact hname ▸ hn

/-- Names of GraphQL begin neither literals nor comments, so neither does what is declared for an operation. -/
theorem MethodDecl.plain_ofOperation {ps : Primitives} (hps : ∀ n, Go.Plain (ps.get n)) {op : Operation} {r : RootField}
    {ix : Index} (hr : r.field.Named) (hmethod : op.method = r.method ix) : (ofOperation ps op).Plain := by
  have harg : ∀ a ∈ op.method.args, Sdl.isName a.1 = true ∧ Sdl.isName a.2.gqlType = true := by
    intro a ha
    rw [hmethod] at ha
    obtain ⟨v, hv, rfl⟩ := List.mem_map.1 (OrderedMap.mem_of_mem_ofEntries ha)
    obtain ⟨hname, htype⟩ := hr.args v hv
    exact ⟨hname, isName_describeRef htype ix⟩
  refine { name := ?_, args := ?_, result := ?_, key := ?_ }
  · rw [ofOperation, hmethod]
    exact plain_of_isName hr.name
  · intro a ha
    obtain ⟨e, he, rfl⟩ := List.mem_map.1 ha
    obtain ⟨hname, htype⟩ := harg e he
    exact ⟨plain_of_isName hname, plain_ofDescriptor hps htype⟩
  · rw [ofOperation, hmethod]
    exact plain_ofDescriptor hps (isName_describeRef hr.type ix)
  · intro k hk
    obtain ⟨e, he, rfl⟩ := List.mem_map.1 (mem_keys_of_hint (.inl hk))
    exact plain_of_isName (harg e he).1

theorem Package.plain_ofDefinition {s : Schema} {ignored : IgnoreList} {d : Definition} {ps : Primitives}
    (hs : ∀ f ∈ s.queryFields ++ s.mutationFields, f.Named) (hd : Definition.ofSchema s ignored = .ok d)
    (hps : ∀ n, Go.Plain (ps.get n)) : (ofDefinition d ps).Plain := by
  constructor
  · intro op hop
    obtain ⟨r, hr, hquery, -⟩ := Definition.rootField_of_mem_operations hd hop
    rw [hquery]
    exact plain_of_isName (hs _ hr).name
  · intro m hm
    obtain ⟨op, hop, rfl⟩ := List.mem_map.1 hm
    obtain ⟨r, hr, -, hmethod⟩ := Definition.rootField_of_mem_operations hd hop
    exact MethodDecl.plain_ofOperation hps (hs _ hr) hmethod

/-- A literal that is followed by any text is read back, and reading stops at its end, so different values have different
literals. In the files of the queries and of the client of every package each of the values is read back at its place. If
what stands outside of literals begins neither literals nor comments, the values are all literals that the files have; and
that is so if the root fields of the schema, their arguments and the types of these have names of GraphQL. -/
theorem literals_read_back :
    (∀ s t : String, scanLiteral (stringLiteral s ++ t) = some (s, t)) ∧ Function.Injective stringLiteral ∧
    (∀ (p : Package) (module : String),
      Holds p.queriesFile p.queriesValues ∧ Holds (p.clientFile module) (p.clientValues module) ∧
      (p.Plain → stringLiterals p.queriesFile = some p.queriesValues ∧
        stringLiterals (p.clientFile module) = some (p.clientValues module))) ∧
    ∀ (s : Schema) (ignored : IgnoreList) (d : Definition) (ps : Primitives),
      (∀ f ∈ s.queryFields ++ s.mutationFields, f.Named) → Definition.ofSchema s ignored = .ok d →
      (∀ n, Plain (ps.get n)) → (Package.ofDefinition d ps).Plain := by
  refine ⟨scanLiteral_stringLiteral, stringLiteral_injective, fun p module => ?_, fun s ignored d ps hs hd hps =>
    Package.plain_ofDefinition hs hd hps⟩
  rw [← p.joined_queriesParts, ← p.values_queriesParts, ← p.joined_clientParts, ← p.values_clientParts]
  refine ⟨holds_joined _, holds_joined _, fun hp => ⟨?_, ?_⟩⟩
  · exact stringLiterals_joined (Package.closed_queriesParts hp.operations)
  · exact stringLiterals_joined (Package.closed_clientParts hp.methods module)

/-- A module whose name has a quote, a backslash and a new line stays inside of its literal. -/
theorem quoted_module_read_back :
    ∃ s d, Schema.ofSdl shapesText = .ok s ∧ Definition.ofSchema s IgnoreList.builtin = .ok d ∧
      (Package.ofDefinition d Target.goTarget.primitives).Plain ∧
      stringLiterals ((Package.ofDefinition d Target.goTarget.primitives).clientFile "a\")\n\\") =
        some ["context", "a\")\n\\/cmd/main/types", "shape", "document_retrieve", "Shape"] := by
  have htest : definesWith (fun d => decide (UsesTypes d ∧
      (Package.ofDefinition d Target.goTarget.primitives).methods.flatMap MethodDecl.metaValues =
        ["shape", "document_retrieve", "Shape"])) shapesText = true := by decide +kernel
  obtain ⟨s, d, hs, hd, htest⟩ := exists_of_definesWith htest
  obtain ⟨huses, hvalues⟩ := of_decide_eq_true htest
  have hps : ∀ n, Plain (Target.goTarget.primitives.get n) := by
    intro n
    unfold Primitives.get
    split <;> decide
  obtain ⟨-, -, hfiles, hnames⟩ := literals_read_back
  have hplain := hnames s _ d _ (fun f hf => Schema.rootNamed_ofSdl hs hf) hd hps
  refine ⟨s, d, hs, hd, hplain, ?_⟩
  rw [((hfiles _ _).2.2 hplain).2, Package.clientValues,
    if_pos ((mentions_methodsText_iff hs hd Target.goTarget.primitives).2 (.inl huses)), hvalues]
  rfl

end SdkLoom.Go
