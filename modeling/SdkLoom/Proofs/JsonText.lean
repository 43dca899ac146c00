import SdkLoom.Json.Printer
import SdkLoom.Json.Reader
import SdkLoom.Proofs.Maps

/-!
# Reading a written JSON value

The pretty and the compact text of a value without numbers are read as that value, as long as it is not nested too deep
(`Json.read_pretty`, `Json.read_compact`). Each text is scanned to the tokens of the value (`Json.scans_pretty`,
`Json.scans_compact`), and the tokens are read as the value (`Json.reads_tokens`). Both machines are followed with whatever
they have kept so far, and the scanner also with whatever text comes next, so that what is said of the parts of a value can
be put together.

The text of a number need not be read as that number. So what the text of a value is scanned to is said for a value with
numbers in it too, given what the text of each of its numbers is read as (`Json.mapNumbers`).
-/

namespace SdkLoom.Json

/-! ## Values as trees -/

namespace Tree

variable {ε : Type}

mutual

/-- The greatest number of containers around a place in a tree, that place included. -/
def depth : Tree ε → Nat
  | .arr items => itemsDepth items + 1
  | .obj members => membersDepth members + 1
  | _ => 0

/-- The greatest depth of items. -/
def itemsDepth : List (Tree ε) → Nat
  | [] => 0
  | t :: rest => max t.depth (itemsDepth rest)

/-- The greatest depth of the values of members. -/
def membersDepth : List (String × Tree ε) → Nat
  | [] => 0
  | (_, t) :: rest => max t.depth (membersDepth rest)

end

mutual

/-- A value as a tree that could have faults. -/
def lift : Json → Tree ε
  | .fault cause => nomatch cause
  | .null => .null
  | .bool b => .bool b
  | .num n => .num n
  | .str s => .str s
  | .arr items => .arr (liftItems items)
  | .obj members => .obj (liftMembers members)

/-- Items as trees. -/
def liftItems : List Json → List (Tree ε)
  | [] => []
  | v :: rest => lift v :: liftItems rest

/-- Members as trees. -/
def liftMembers : List (String × Json) → List (String × Tree ε)
  | [] => []
  | (k, v) :: rest => (k, lift v) :: liftMembers rest

end

end Tree

mutual

/-- Whether a value has no numbers in it. -/
def numberFree : Json → Bool
  | .num _ => false
  | .arr items => numberFreeItems items
  | .obj members => numberFreeMembers members
  | _ => true

/-- Whether items have no numbers in them. -/
def numberFreeItems : List Json → Bool
  | [] => true
  | v :: rest => numberFree v && numberFreeItems rest

/-- Whether the values of members have no numbers in them. -/
def numberFreeMembers : List (String × Json) → Bool
  | [] => true
  | (_, v) :: rest => numberFree v && numberFreeMembers rest

end

mutual

/-- The numbers in a value. -/
def numbers : Json → List Number
  | .num n => [n]
  | .arr items => itemNumbers items
  | .obj members => memberNumbers members
  | _ => []

/-- The numbers in items. -/
def itemNumbers : List Json → List Number
  | [] => []
  | v :: rest => numbers v ++ itemNumbers rest

/-- The numbers in the values of members. -/
def memberNumbers : List (String × Json) → List Number
  | [] => []
  | (_, v) :: rest => numbers v ++ memberNumbers rest

end

mutual

/-- A value with other numbers in the place of its own. -/
def mapNumbers (f : Number → Number) : Json → Json
  | .fault cause => nomatch cause
  | .null => .null
  | .bool b => .bool b
  | .num n => .num (f n)
  | .str s => .str s
  | .arr items => .arr (mapItemNumbers f items)
  | .obj members => .obj (mapMemberNumbers f members)

/-- Items with other numbers. -/
def mapItemNumbers (f : Number → Number) : List Json → List Json
  | [] => []
  | v :: rest => mapNumbers f v :: mapItemNumbers f rest

/-- Members with other numbers in their values. -/
def mapMemberNumbers (f : Number → Number) : List (String × Json) → List (String × Json)
  | [] => []
  | (k, v) :: rest => (k, mapNumbers f v) :: mapMemberNumbers f rest

end

mutual

theorem numbers_of_numberFree : ∀ {j : Json}, j.numberFree = true → j.numbers = []
  | .fault cause, _ => nomatch cause
  | .null, _ => rfl
  | .bool _, _ => rfl
  | .num _, h => by
    rw [numberFree] at h
    cases h
  | .str _, _ => rfl
  | .arr _, h => by
    rw [numberFree] at h
    exact itemNumbers_of_numberFree h
  | .obj _, h => by
    rw [numberFree] at h
    exact memberNumbers_of_numberFree h

theorem itemNumbers_of_numberFree : ∀ {items : List Json}, numberFreeItems items = true → itemNumbers items = []
  | [], _ => rfl
  | v :: items, h => by
    rw [numberFreeItems, Bool.and_eq_true] at h
    rw [itemNumbers, numbers_of_numberFree h.1, itemNumbers_of_numberFree h.2, List.append_nil]

theorem memberNumbers_of_numberFree : ∀ {members : List (String × Json)}, numberFreeMembers members = true →
    memberNumbers members = []
  | [], _ => rfl
  | (_, v) :: members, h => by
    rw [numberFreeMembers, Bool.and_eq_true] at h
    rw [memberNumbers, numbers_of_numberFree h.1, memberNumbers_of_numberFree h.2, List.append_nil]

end

mutual

theorem mapNumbers_id : ∀ j : Json, j.mapNumbers id = j
  | .fault cause => nomatch cause
  | .null => rfl
  | .bool _ => rfl
  | .num _ => rfl
  | .str _ => rfl
  | .arr items => by rw [mapNumbers, mapItemNumbers_id items]
  | .obj members => by rw [mapNumbers, mapMemberNumbers_id members]

theorem mapItemNumbers_id : ∀ items : List Json, mapItemNumbers id items = items
  | [] => rfl
  | v :: items => by rw [mapItemNumbers, mapNumbers_id v, mapItemNumbers_id items]

theorem mapMemberNumbers_id : ∀ members : List (String × Json), mapMemberNumbers id members = members
  | [] => rfl
  | (_, v) :: members => by rw [mapMemberNumbers, mapNumbers_id v, mapMemberNumbers_id members]

end

mutual

/-- Other numbers do not change the depth. -/
theorem depth_mapNumbers (f : Number → Number) : ∀ j : Json, (j.mapNumbers f).depth = j.depth
  | .fault cause => nomatch cause
  | .null => rfl
  | .bool _ => rfl
  | .num _ => rfl
  | .str _ => rfl
  | .arr items => by rw [mapNumbers, Tree.depth, Tree.depth, itemsDepth_mapNumbers f items]
  | .obj members => by rw [mapNumbers, Tree.depth, Tree.depth, membersDepth_mapNumbers f members]

theorem itemsDepth_mapNumbers (f : Number → Number) : ∀ items : List Json,
    Tree.itemsDepth (mapItemNumbers f items) = Tree.itemsDepth items
  | [] => rfl
  | v :: items => by
    rw [mapItemNumbers, Tree.itemsDepth, Tree.itemsDepth, depth_mapNumbers f v, itemsDepth_mapNumbers f items]

theorem membersDepth_mapNumbers (f : Number → Number) : ∀ members : List (String × Json),
    Tree.membersDepth (mapMemberNumbers f members) = Tree.membersDepth members
  | [] => rfl
  | (_, v) :: members => by
    rw [mapMemberNumbers, Tree.membersDepth, Tree.membersDepth, depth_mapNumbers f v, membersDepth_mapNumbers f members]

end

theorem mapMemberNumbers_eq (f : Number → Number) (members : List (String × Json)) :
    mapMemberNumbers f members = members.map fun m => (m.1, m.2.mapNumbers f) := by
  induction members with
  | nil => rfl
  | cons m members ih => rw [mapMemberNumbers, ih, List.map_cons]

theorem mem_memberNumbers_iff {n : Number} {members : List (String × Json)} :
    n ∈ memberNumbers members ↔ ∃ m ∈ members, n ∈ m.2.numbers := by
  induction members with
  | nil => simp [memberNumbers]
  | cons m members ih => rw [memberNumbers, List.mem_append, ih, List.exists_mem_cons_iff]

mutual

/-- The tokens of a value. -/
def tokens : Json → List Token
  | .fault cause => nomatch cause
  | .null => [.leaf .null]
  | .bool b => [.leaf (.bool b)]
  | .num n => [.leaf (.num n)]
  | .str s => [.str (some s)]
  | .arr items => .openArr :: ([Token.comma].intercalate (itemTokens items) ++ [.closeArr])
  | .obj members => .openObj :: ([Token.comma].intercalate (memberTokens members) ++ [.closeObj])

/-- The tokens of each item. -/
def itemTokens : List Json → List (List Token)
  | [] => []
  | v :: rest => tokens v :: itemTokens rest

/-- The tokens of each member: its key, a colon and its value. -/
def memberTokens : List (String × Json) → List (List Token)
  | [] => []
  | (k, v) :: rest => (.str (some k) :: .colon :: tokens v) :: memberTokens rest

end

/-! ## Scanning -/

namespace Token

/-- The tokens of a text for a machine that is inside of one already. -/
def scanFrom (st : State) (cs : List Char) : Option (List Token) := do
  let st ← cs.foldlM step st
  let st ← st.settle
  match st.mode with
  | .between => some st.tokens.reverse
  | _ => none

theorem scanFrom_cons (st : State) (c : Char) (cs : List Char) :
    scanFrom st (c :: cs) = (step st c).bind fun st => scanFrom st cs := by
  rw [scanFrom, List.foldlM_cons]
  cases step st c <;> rfl

theorem scanFrom_append {st st' : State} {cs : List Char} (h : cs.foldlM step st = some st') (rest : List Char) :
    scanFrom st (cs ++ rest) = scanFrom st' rest := by
  rw [scanFrom, List.foldlM_append, h]
  rfl

/-- Between other tokens a text is scanned to some tokens when a certain text comes next, whatever came before it. -/
def ScansBefore (rest text : List Char) (toks : List Token) : Prop :=
  ∀ done, scanFrom ⟨.between, done⟩ (text ++ rest) = scanFrom ⟨.between, toks.reverse ++ done⟩ rest

theorem ScansBefore.append {rest a b : List Char} {x y : List Token} (ha : ScansBefore (b ++ rest) a x)
    (hb : ScansBefore rest b y) : ScansBefore rest (a ++ b) (x ++ y) := by
  intro done
  rw [List.append_assoc, ha, hb, List.reverse_append, List.append_assoc]

/-- A text that no word and no number goes on with. -/
def Delimited (rest : List Char) : Prop := ∀ c ∈ rest.head?, (c.isLower || isNumberChar c) = false

theorem delimited_cons {c : Char} (h : (c.isLower || isNumberChar c) = false) (rest : List Char) : Delimited (c :: rest) := by
  intro d hd
  cases hd
  exact h

/-- A text is scanned to some tokens before every text that no word and no number goes on with. -/
def Scans (text : List Char) (toks : List Token) : Prop := ∀ rest, Delimited rest → ScansBefore rest text toks

theorem hexDigit?_hexChar : ∀ n < 16, hexDigit? (hexChar n) = some n := by decide

/-- Inside of a string, an escaped character adds that character. -/
theorem scanFrom_escapeChar (p : Partial) (done : List Token) (c : Char) (rest : List Char) :
    scanFrom ⟨.text p, done⟩ (escapeChar c ++ rest) = scanFrom ⟨.text (p.push c), done⟩ rest := by
  unfold escapeChar
  split
  · rfl
  · rfl
  · rfl
  · rfl
  · rfl
  · rfl
  · rfl
  · rename_i hquote hslash _ _ _ _ _
    split
    next hcontrol =>
      have hhigh := hexDigit?_hexChar (c.toNat / 16) (by omega)
      have hlow := hexDigit?_hexChar (c.toNat % 16) (by omega)
      have hunit : p.pushUnit (c.toNat / 16 * 16 + c.toNat % 16) = p.push c := by
        rw [Nat.div_add_mod']
        unfold Partial.pushUnit
        rw [if_neg (by omega), if_neg (by omega), Char.ofNat_toNat]
      have hzero : hexDigit? '0' = some 0 := rfl
      simp only [List.cons_append, List.nil_append, scanFrom_cons]
      simp [step, hhigh, hlow, hzero, hunit]
    next hplain =>
      have hstep : step ⟨.text p, done⟩ c = some ⟨.text (p.push c), done⟩ := by
        simp only [step, if_neg hquote, if_neg hslash, if_neg hplain]
      rw [List.singleton_append, scanFrom_cons, hstep, Option.bind_some]

/-- A string in quotes is scanned to that string. -/
theorem scans_quote (s : String) (rest : List Char) : ScansBefore rest (quote s).toList [.str (some s)] := by
  have hchars : ∀ (cs acc : List Char) (done : List Token) (rest : List Char),
      scanFrom ⟨.text ⟨acc, none, false⟩, done⟩ (cs.flatMap escapeChar ++ '"' :: rest) =
        scanFrom ⟨.between, .str (some (String.ofList (acc.reverse ++ cs))) :: done⟩ rest := by
    intro cs
    induction cs with
    | nil =>
      intro acc done rest
      rw [List.flatMap_nil, List.nil_append, List.append_nil, scanFrom_cons]
      rfl
    | cons c cs ih =>
      intro acc done rest
      rw [List.flatMap_cons, List.append_assoc, scanFrom_escapeChar]
      have hpush : (⟨acc, none, false⟩ : Partial).push c = ⟨c :: acc, none, false⟩ := rfl
      rw [hpush, ih, List.reverse_cons, List.append_assoc, List.singleton_append]
  intro done
  rw [quote, String.toList_ofList, List.cons_append, List.cons_append, List.append_assoc, List.singleton_append,
    scanFrom_cons]
  have hstart : step ⟨.between, done⟩ '"' = some ⟨.text ⟨[], none, false⟩, done⟩ := rfl
  rw [hstart, Option.bind_some, hchars, List.reverse_nil, List.nil_append, String.ofList_toList]
  rfl

/-- A word that stands for a token is scanned to it, since what comes next ends the word. -/
theorem scans_word {word : List Char} {t : Token}
    (hread : ∀ done, word.foldlM step ⟨.between, done⟩ = some ⟨.word word.reverse, done⟩)
    (hword : ofWord? (String.ofList word) = some t) : Scans word [t] := by
  intro rest hrest done
  have hsettle : (⟨.word word.reverse, done⟩ : State).settle = some ⟨.between, t :: done⟩ := by
    simp [State.settle, hword]
  rw [scanFrom_append (hread done)]
  cases rest with
  | nil =>
    simp [scanFrom, State.settle, hword]
  | cons c rest =>
    have hlower : c.isLower = false := (Bool.or_eq_false_iff.1 (hrest c rfl)).1
    have hstep : step ⟨.word word.reverse, done⟩ c = step ⟨.between, t :: done⟩ c := by
      simp [step, hlower, hsettle]
    rw [scanFrom_cons, scanFrom_cons, hstep]
    rfl

theorem scans_null : Scans "null".toList [.leaf .null] := scans_word (fun _ => rfl) rfl

theorem scans_bool (b : Bool) : Scans (if b then "true" else "false").toList [.leaf (.bool b)] := by
  cases b with
  | false => exact scans_word (fun _ => rfl) rfl
  | true => exact scans_word (fun _ => rfl) rfl

/-- A number literal is scanned to its token, since what comes next ends the literal. -/
theorem scans_number {c : Char} {cs : List Char} {t : Token} (hstart : (c.isDigit || c == '-') = true)
    (hchars : ∀ d ∈ cs, isNumberChar d = true) (hnumber : ofNumber? (c :: cs) = some t) : Scans (c :: cs) [t] := by
  have hfirst : ∀ done, step ⟨.between, done⟩ c = some ⟨.number [c], done⟩ := by
    intro done
    rw [step, start, if_pos hstart]
    all_goals
      rintro rfl
      exact absurd hstart (by decide)
  have hread : ∀ (cs acc : List Char) (done : List Token), (∀ d ∈ cs, isNumberChar d = true) →
      cs.foldlM step ⟨.number acc, done⟩ = some ⟨.number (cs.reverse ++ acc), done⟩ := by
    intro cs
    induction cs with
    | nil => intro acc done _; rfl
    | cons d cs ih =>
      intro acc done hcs
      have hstep : step ⟨.number acc, done⟩ d = some ⟨.number (d :: acc), done⟩ := if_pos (hcs d (by simp))
      rw [List.foldlM_cons, hstep, Option.bind_eq_bind, Option.bind_some, ih _ _ fun e he => hcs e (by simp [he])]
      simp
  intro rest hrest done
  have hsettle : (⟨.number (cs.reverse ++ [c]), done⟩ : State).settle = some ⟨.between, t :: done⟩ := by
    simp [State.settle, hnumber]
  have hliteral : (c :: cs).foldlM step ⟨.between, done⟩ = some ⟨.number (cs.reverse ++ [c]), done⟩ := by
    rw [List.foldlM_cons, hfirst, Option.bind_eq_bind, Option.bind_some, hread cs [c] done hchars]
  rw [scanFrom_append hliteral]
  cases rest with
  | nil =>
    simp [scanFrom, State.settle, hnumber]
  | cons d rest =>
    have hother : isNumberChar d = false := (Bool.or_eq_false_iff.1 (hrest d rfl)).2
    have hstep : step ⟨.number (cs.reverse ++ [c]), done⟩ d = step ⟨.between, t :: done⟩ d := by
      simp [step, hother, hsettle]
    rw [scanFrom_cons, scanFrom_cons, hstep]
    rfl

/-- A character that is a token by itself. -/
theorem scans_char {c : Char} {t : Token} (hstart : ∀ done, start done c = some ⟨.between, t :: done⟩) (rest : List Char) :
    ScansBefore rest [c] [t] := by
  intro done
  rw [List.singleton_append, scanFrom_cons, step, hstart]
  rfl

/-- A text that has no token. -/
def Blank (text : List Char) : Prop := ∀ rest, ScansBefore rest text []

theorem blank_nil : Blank [] := fun _ _ => rfl

theorem blank_space : Blank [' '] := fun _ _ => rfl

/-- A line break with the indentation after it has no token. -/
theorem blank_newline (level : Nat) : Blank (newline level).toList := by
  have hspaces : ∀ (n : Nat) (done : List Token) (rest : List Char),
      scanFrom ⟨.between, done⟩ (List.replicate n ' ' ++ rest) = scanFrom ⟨.between, done⟩ rest := by
    intro n
    induction n with
    | zero => intro done rest; rfl
    | succ n ih =>
      intro done rest
      rw [List.replicate_succ, List.cons_append, scanFrom_cons]
      exact ih done rest
  have htext : (newline level).toList = '\n' :: List.replicate (2 * level) ' ' := by simp [newline]
  intro rest done
  rw [htext, List.cons_append, scanFrom_cons]
  exact hspaces _ done rest

/-- Texts with a comma and a blank text between them are scanned to the tokens of the texts with a comma between them. -/
theorem scans_separated {blank : List Char} (hblank : Blank blank) {texts : List (List Char)} {toks : List (List Token)}
    (h : List.Forall₂ Scans texts toks) :
    Scans (List.intercalate ([','] ++ blank) texts) (List.intercalate [.comma] toks) := by
  have hcomma : ∀ rest, ScansBefore rest ([','] ++ blank) ([.comma] ++ []) := fun rest =>
    (scans_char (fun _ => rfl) _).append (hblank rest)
  induction h with
  | nil => intro rest _ done; rfl
  | @cons a x texts toks ha htexts ih =>
    cases htexts with
    | nil =>
      rw [List.intercalate_singleton, List.intercalate_singleton]
      exact ha
    | cons hb htexts =>
      rw [List.intercalate_cons_cons, List.intercalate_cons_cons]
      intro rest hrest
      exact ((ha _ (delimited_cons (by decide) _)).append (hcomma _)).append (ih rest hrest)

section Enclosed

variable {opening closing : Char} {x y : Token} (hopening : ∀ done, start done opening = some ⟨.between, x :: done⟩)
  (hclosing : ∀ done, start done closing = some ⟨.between, y :: done⟩)
include hopening hclosing

/-- Texts in brackets, with blank texts around and between them, are scanned to the tokens of the texts in the tokens of the
brackets. -/
theorem scans_enclosed {before between after : List Char} (hbefore : Blank before) (hbetween : Blank between)
    (hafter : Blank after) (hend : ∀ rest, Delimited (after ++ ([closing] ++ rest))) {texts : List (List Char)}
    {toks : List (List Token)} (h : List.Forall₂ Scans texts toks) (rest : List Char) :
    ScansBefore rest ([opening] ++ before ++ List.intercalate ([','] ++ between) texts ++ after ++ [closing])
      (x :: (List.intercalate [.comma] toks ++ [y])) := by
  have htoks : x :: (List.intercalate [.comma] toks ++ [y]) =
      [x] ++ [] ++ List.intercalate [.comma] toks ++ [] ++ [y] := by
    simp
  have hinner := scans_separated hbetween h (after ++ ([closing] ++ rest)) (hend rest)
  rw [htoks]
  refine ScansBefore.append (.append (.append (.append (scans_char hopening _) (hbefore _)) ?_) ?_) ?_
  · simpa only [List.append_assoc] using hinner
  · exact hafter _
  · exact scans_char hclosing rest

/-- Texts in brackets, each on a line of its own. -/
theorem scans_bracket (level : Nat) {texts : List String} {toks : List (List Token)}
    (h : List.Forall₂ Scans (texts.map String.toList) toks) (hclose : (closing.isLower || isNumberChar closing) = false)
    (rest : List Char) :
    ScansBefore rest (bracket (String.singleton opening) (String.singleton closing) level texts).toList
      (x :: (List.intercalate [.comma] toks ++ [y])) := by
  unfold bracket
  cases texts with
  | nil =>
    have hempty := scans_enclosed hopening hclosing blank_nil blank_nil blank_nil (fun _ => delimited_cons hclose _) h rest
    simpa using hempty
  | cons text texts =>
    have hend : ∀ rest, Delimited ((newline level).toList ++ ([closing] ++ rest)) := by
      intro rest
      rw [newline, String.toList_append]
      exact delimited_cons (by decide) _
    have hlines := scans_enclosed hopening hclosing (blank_newline (level + 1)) (blank_newline (level + 1))
      (blank_newline level) hend h rest
    have htext : (String.singleton opening ++ newline (level + 1) ++
        ("," ++ newline (level + 1)).intercalate (text :: texts) ++ newline level ++ String.singleton closing).toList =
          [opening] ++ (newline (level + 1)).toList ++
            List.intercalate ([','] ++ (newline (level + 1)).toList) ((text :: texts).map String.toList) ++
              (newline level).toList ++ [closing] := by
      simp
    rw [List.isEmpty_cons, if_neg Bool.false_ne_true, htext]
    exact hlines

end Enclosed

/-- A key, a colon and a blank text before the text of a value. -/
theorem scans_member (k : String) {blank value text : List Char} {toks : List Token} (hblank : Blank blank)
    (htext : text = (quote k).toList ++ ([':'] ++ blank) ++ value) (h : Scans value toks) :
    Scans text (.str (some k) :: .colon :: toks) := by
  have htoks : Token.str (some k) :: .colon :: toks = [.str (some k)] ++ ([.colon] ++ []) ++ toks := rfl
  intro rest hrest
  rw [htext, htoks]
  exact ((scans_quote k _).append ((scans_char (fun _ => rfl) _).append (hblank _))).append (h rest hrest)

end Token

open Token

section Numbers

variable {f : Number → Number}

mutual

/-- The pretty text of a value is scanned to the tokens of the value, with what its numbers are read as in their place. -/
theorem scans_pretty (level : Nat) : ∀ j : Json, (∀ n ∈ j.numbers, Scans n.text.toList [.leaf (.num (f n))]) →
    Scans (prettyAt level j).toList (j.mapNumbers f).tokens
  | .fault cause, _ => nomatch cause
  | .null, _ => by
    rw [prettyAt, mapNumbers, tokens]
    exact scans_null
  | .bool b, _ => by
    rw [prettyAt, mapNumbers, tokens]
    exact scans_bool b
  | .num n, h => by
    rw [prettyAt, mapNumbers, tokens]
    exact h n (by simp [numbers])
  | .str s, _ => by
    rw [prettyAt, mapNumbers, tokens]
    exact fun rest _ => scans_quote s rest
  | .arr items, h => by
    rw [numbers] at h
    intro rest _
    rw [prettyAt, mapNumbers, tokens]
    exact @scans_bracket '[' ']' _ _ (fun _ => rfl) (fun _ => rfl) level _ _ (scans_prettyItems (level + 1) items h) rfl rest
  | .obj members, h => by
    rw [numbers] at h
    intro rest _
    rw [prettyAt, mapNumbers, tokens]
    exact @scans_bracket '\x7b' '\x7d' _ _ (fun _ => rfl) (fun _ => rfl) level _ _
      (scans_prettyMembers (level + 1) members h) rfl rest

theorem scans_prettyItems (level : Nat) : ∀ items : List Json,
    (∀ n ∈ itemNumbers items, Scans n.text.toList [.leaf (.num (f n))]) →
    List.Forall₂ Scans ((prettyItems level items).map String.toList) (itemTokens (mapItemNumbers f items))
  | [], _ => .nil
  | j :: items, h => by
    rw [itemNumbers, List.forall_mem_append] at h
    exact .cons (scans_pretty level j h.1) (scans_prettyItems level items h.2)

theorem scans_prettyMembers (level : Nat) : ∀ members : List (String × Json),
    (∀ n ∈ memberNumbers members, Scans n.text.toList [.leaf (.num (f n))]) →
    List.Forall₂ Scans ((prettyMembers level members).map String.toList) (memberTokens (mapMemberNumbers f members))
  | [], _ => .nil
  | (k, j) :: members, h => by
    rw [memberNumbers, List.forall_mem_append] at h
    exact .cons (scans_member k blank_space (by simp) (scans_pretty level j h.1)) (scans_prettyMembers level members h.2)

end

mutual

/-- The compact text of a value is scanned to the tokens of the value, with what its numbers are read as in their place. -/
theorem scans_compact : ∀ j : Json, (∀ n ∈ j.numbers, Scans n.text.toList [.leaf (.num (f n))]) →
    Scans (compact j).toList (j.mapNumbers f).tokens
  | .fault cause, _ => nomatch cause
  | .null, _ => by
    rw [compact, mapNumbers, tokens]
    exact scans_null
  | .bool b, _ => by
    rw [compact, mapNumbers, tokens]
    exact scans_bool b
  | .num n, h => by
    rw [compact, mapNumbers, tokens]
    exact h n (by simp [numbers])
  | .str s, _ => by
    rw [compact, mapNumbers, tokens]
    exact fun rest _ => scans_quote s rest
  | .arr items, h => by
    rw [numbers] at h
    have hitems := @scans_enclosed '[' ']' _ _ (fun _ => rfl) (fun _ => rfl) _ _ _ blank_nil blank_nil blank_nil
      (fun _ => delimited_cons rfl _) _ _ (scans_compactItems items h)
    intro rest _
    rw [compact, mapNumbers, tokens]
    simpa using hitems rest
  | .obj members, h => by
    rw [numbers] at h
    have hmembers := @scans_enclosed '\x7b' '\x7d' _ _ (fun _ => rfl) (fun _ => rfl) _ _ _ blank_nil blank_nil blank_nil
      (fun _ => delimited_cons rfl _) _ _ (scans_compactMembers members h)
    intro rest _
    rw [compact, mapNumbers, tokens]
    simpa using hmembers rest

theorem scans_compactItems : ∀ items : List Json,
    (∀ n ∈ itemNumbers items, Scans n.text.toList [.leaf (.num (f n))]) →
    List.Forall₂ Scans ((compactItems items).map String.toList) (itemTokens (mapItemNumbers f items))
  | [], _ => .nil
  | j :: items, h => by
    rw [itemNumbers, List.forall_mem_append] at h
    exact .cons (scans_compact j h.1) (scans_compactItems items h.2)

theorem scans_compactMembers : ∀ members : List (String × Json),
    (∀ n ∈ memberNumbers members, Scans n.text.toList [.leaf (.num (f n))]) →
    List.Forall₂ Scans ((compactMembers members).map String.toList) (memberTokens (mapMemberNumbers f members))
  | [], _ => .nil
  | (k, j) :: members, h => by
    rw [memberNumbers, List.forall_mem_append] at h
    exact .cons (scans_member k blank_nil (by simp) (scans_compact j h.1)) (scans_compactMembers members h.2)

end

end Numbers

/-- A text that is scanned to some tokens before every other text has these tokens by itself. -/
theorem scan_of_scans {text : List Char} {toks : List Token} (h : Scans text toks) : Token.scan text = some toks := by
  have hscan := h [] (fun c hc => by cases hc) []
  rw [List.append_nil, List.append_nil] at hscan
  exact hscan.trans (by simp [scanFrom, State.settle])

/-! ## Reading -/

namespace Reader

/-- Whether a value may start. -/
def Expect.startsValue : Expect → Bool
  | .value => true
  | .valueOrClose => true
  | _ => false

/-- Whether a member may start. -/
def Expect.startsMember : Expect → Bool
  | .key => true
  | .keyOrClose => true
  | _ => false

theorem foldlM_cons_of_step {st st' : State} {t : Token} (h : step st t = some st') (toks : List Token) :
    (t :: toks).foldlM step st = toks.foldlM step st' := by
  rw [List.foldlM_cons, h]
  rfl

theorem foldlM_append_of_foldlM {st st' : State} {a : List Token} (h : a.foldlM step st = some st') (b : List Token) :
    (a ++ b).foldlM step st = b.foldlM step st' := by
  rw [List.foldlM_append, h]
  rfl

/-- Where a value may start, some tokens are read as a tree, which is then taken into the innermost open container. -/
def Reads (frames : List Frame) (toks : List Token) (t : Document) : Prop :=
  ∀ e r, e.startsValue = true → toks.foldlM step ⟨e, frames, r⟩ = some (finish frames t)

theorem reads_single {tok : Token} {t : Document}
    (hstart : ∀ frames, startValue frames tok = some (finish frames t)) (htok : tok ≠ .closeArr) (frames : List Frame) :
    Reads frames [tok] t := by
  intro e r he
  have hstep : step ⟨e, frames, r⟩ tok = some (finish frames t) := by
    cases e with
    | value => exact hstart frames
    | valueOrClose =>
      cases tok with
      | closeArr => exact absurd rfl htok
      | _ => exact hstart frames
    | _ => cases he
  rw [foldlM_cons_of_step hstep]
  rfl

/-- Parts with commas between them are read one after the other: each part takes the machine from ready to fed with one more
item, and a comma makes it ready again. -/
theorem foldlM_separated {α : Type} {Item : List Token → α → Prop} (Ready Fed : List α → State → Prop)
    (hitem : ∀ toks x done st, Item toks x → Ready done st → ∃ st', toks.foldlM step st = some st' ∧ Fed (x :: done) st')
    (hcomma : ∀ done st, Fed done st → ∃ st', step st .comma = some st' ∧ Ready done st') {parts : List (List Token)}
    {xs : List α} (h : List.Forall₂ Item parts xs) (hne : parts ≠ []) {done : List α} {st : State} (hst : Ready done st) :
    ∃ st', (List.intercalate [.comma] parts).foldlM step st = some st' ∧ Fed (xs.reverse ++ done) st' := by
  induction h generalizing done st with
  | nil => exact absurd rfl hne
  | @cons part x parts xs hpart hparts ih =>
    obtain ⟨st₁, hread, hfed⟩ := hitem part x done st hpart hst
    cases hparts with
    | nil =>
      rw [List.intercalate_singleton]
      exact ⟨st₁, hread, hfed⟩
    | @cons part' x' parts xs hpart' hparts =>
      obtain ⟨st₂, hstep, hready⟩ := hcomma (x :: done) st₁ hfed
      obtain ⟨st₃, hrest, hfed'⟩ := ih (List.cons_ne_nil _ _) hready
      refine ⟨st₃, ?_, by rw [List.reverse_cons, List.append_assoc]; exact hfed'⟩
      rw [List.intercalate_cons_cons, List.append_assoc, List.singleton_append, foldlM_append_of_foldlM hread,
        foldlM_cons_of_step hstep]
      exact hrest

/-- A list is read if its items are, unless it is nested too deep. -/
theorem reads_arr {frames : List Frame} {parts : List (List Token)} {items : List Document}
    (h : List.Forall₂ (fun part t => ∀ done, Reads (.arr done :: frames) part t) parts items)
    (hdepth : frames.length < maxDepth) :
    Reads frames (.openArr :: (List.intercalate [.comma] parts ++ [.closeArr])) (.arr items) := by
  intro e r he
  have hopen : step ⟨e, frames, r⟩ .openArr = some ⟨.valueOrClose, .arr [] :: frames, .null⟩ := by
    cases e with
    | value => rfl
    | valueOrClose => rfl
    | _ => cases he
  have hclose : ∀ st, step st .closeArr = closeArr (.arr items.reverse :: frames) →
      [Token.closeArr].foldlM step st = some (finish frames (.arr items)) := by
    intro st hst
    rw [closeArr, List.reverse_reverse, limit, if_neg (Nat.not_le.2 hdepth)] at hst
    exact foldlM_cons_of_step hst []
  rw [foldlM_cons_of_step hopen]
  cases h with
  | nil => exact hclose _ rfl
  | cons hpart hparts =>
    obtain ⟨st, hread, rfl⟩ := foldlM_separated (fun done st => ∃ e r, e.startsValue = true ∧ st = ⟨e, .arr done :: frames, r⟩)
      (fun done st => st = ⟨.separator, .arr done :: frames, .null⟩)
      (fun part t done st hpart ⟨e, r, he, hst⟩ => ⟨_, by rw [hst]; exact hpart done e r he, rfl⟩)
      (fun done st hst => ⟨_, by rw [hst]; rfl, .value, .null, rfl, rfl⟩) (.cons hpart hparts) (List.cons_ne_nil _ _)
      ⟨.valueOrClose, .null, rfl, rfl⟩
    rw [foldlM_append_of_foldlM hread, List.append_nil]
    exact hclose _ rfl

/-- Where a member may start, some tokens are read as a member of the innermost open object. -/
def ReadsMember (frames : List Frame) (toks : List Token) (m : String × Document) : Prop :=
  ∀ e done key r, e.startsMember = true →
    toks.foldlM step ⟨e, .obj done false key :: frames, r⟩ = some ⟨.separator, .obj (m :: done) false m.1 :: frames, .null⟩

theorem readsMember_of_reads {frames : List Frame} {k : String} {toks : List Token} {t : Document}
    (h : ∀ done, Reads (.obj done false k :: frames) toks t) :
    ReadsMember frames (.str (some k) :: .colon :: toks) (k, t) := by
  intro e done key r he
  have hkey : step ⟨e, .obj done false key :: frames, r⟩ (.str (some k)) =
      some ⟨.colon, .obj done false k :: frames, .null⟩ := by
    cases e with
    | key => rfl
    | keyOrClose => rfl
    | _ => cases he
  have hcolon : step ⟨.colon, .obj done false k :: frames, .null⟩ .colon =
      some ⟨.value, .obj done false k :: frames, .null⟩ := rfl
  rw [foldlM_cons_of_step hkey, foldlM_cons_of_step hcolon]
  exact h done .value .null rfl

/-- An object is read if its members are, unless it is nested too deep. -/
theorem reads_obj {frames : List Frame} {parts : List (List Token)} {members : List (String × Document)}
    (h : List.Forall₂ (ReadsMember frames) parts members) (hdepth : frames.length < maxDepth) :
    Reads frames (.openObj :: (List.intercalate [.comma] parts ++ [.closeObj])) (.obj members) := by
  intro e r he
  have hopen : step ⟨e, frames, r⟩ .openObj = some ⟨.keyOrClose, .obj [] false "" :: frames, .null⟩ := by
    cases e with
    | value => rfl
    | valueOrClose => rfl
    | _ => cases he
  have hclose : ∀ st key, step st .closeObj = closeObj (.obj members.reverse false key :: frames) →
      [Token.closeObj].foldlM step st = some (finish frames (.obj members)) := by
    intro st key hst
    rw [closeObj, List.reverse_reverse, limit, if_neg (Nat.not_le.2 hdepth)] at hst
    exact foldlM_cons_of_step hst []
  rw [foldlM_cons_of_step hopen]
  cases h with
  | nil => exact hclose _ "" rfl
  | cons hpart hparts =>
    obtain ⟨st, hread, key, rfl⟩ := foldlM_separated
      (fun done st => ∃ e key r, e.startsMember = true ∧ st = ⟨e, .obj done false key :: frames, r⟩)
      (fun done st => ∃ key, st = ⟨.separator, .obj done false key :: frames, .null⟩)
      (fun part m done st hpart ⟨e, key, r, he, hst⟩ => ⟨_, by rw [hst]; exact hpart e done key r he, m.1, rfl⟩)
      (fun done st ⟨key, hst⟩ => ⟨_, by rw [hst]; rfl, .key, key, .null, rfl, rfl⟩) (.cons hpart hparts)
      (List.cons_ne_nil _ _) ⟨.keyOrClose, "", .null, rfl, rfl⟩
    rw [foldlM_append_of_foldlM hread, List.append_nil]
    exact hclose _ key rfl

end Reader

open Reader

mutual

/-- The tokens of a value are read as that value, unless it is nested too deep. -/
theorem reads_tokens : ∀ (j : Json) (frames : List Frame), j.depth + frames.length ≤ maxDepth →
    Reads frames j.tokens j.lift
  | .fault cause, _, _ => nomatch cause
  | .null, frames, _ => by
    rw [tokens, Tree.lift]
    exact reads_single (fun _ => rfl) (fun h => by cases h) frames
  | .bool _, frames, _ => by
    rw [tokens, Tree.lift]
    exact reads_single (fun _ => rfl) (fun h => by cases h) frames
  | .num _, frames, _ => by
    rw [tokens, Tree.lift]
    exact reads_single (fun _ => rfl) (fun h => by cases h) frames
  | .str _, frames, _ => by
    rw [tokens, Tree.lift]
    exact reads_single (fun _ => rfl) (fun h => by cases h) frames
  | .arr items, frames, h => by
    rw [Tree.depth] at h
    rw [tokens, Tree.lift]
    exact reads_arr (reads_itemTokens items frames (by omega)) (by omega)
  | .obj members, frames, h => by
    rw [Tree.depth] at h
    rw [tokens, Tree.lift]
    exact reads_obj (reads_memberTokens members frames (by omega)) (by omega)

theorem reads_itemTokens : ∀ (items : List Json) (frames : List Frame),
    Tree.itemsDepth items + (frames.length + 1) ≤ maxDepth →
    List.Forall₂ (fun part t => ∀ done, Reads (.arr done :: frames) part t) (itemTokens items) (Tree.liftItems items)
  | [], _, _ => .nil
  | j :: items, frames, h => by
    rw [Tree.itemsDepth] at h
    refine .cons (fun done => reads_tokens j _ ?_) (reads_itemTokens items frames (by omega))
    rw [List.length_cons]
    omega

theorem reads_memberTokens : ∀ (members : List (String × Json)) (frames : List Frame),
    Tree.membersDepth members + (frames.length + 1) ≤ maxDepth →
    List.Forall₂ (ReadsMember frames) (memberTokens members) (Tree.liftMembers members)
  | [], _, _ => .nil
  | (k, j) :: members, frames, h => by
    rw [Tree.membersDepth] at h
    refine .cons (readsMember_of_reads fun done => reads_tokens j _ ?_) (reads_memberTokens members frames (by omega))
    rw [List.length_cons]
    omega

end

/-- A text with the tokens of a value is read as that value, unless it is nested too deep. -/
theorem read_of_scans {j : Json} {text : String} (h : Scans text.toList j.tokens) (hdepth : j.depth ≤ maxDepth) :
    Json.read text = some j.lift := by
  have hreads := reads_tokens j [] (by simpa using hdepth) .value .null rfl
  rw [read, scan_of_scans h, Option.bind_some, run, hreads]
  rfl

/-- The pretty text of a value without numbers is read as that value, unless it is nested too deep. -/
theorem read_pretty {j : Json} (hnumbers : j.numberFree = true) (hdepth : j.depth ≤ maxDepth) :
    Json.read j.pretty = some j.lift := by
  have hscans : Scans j.pretty.toList (j.mapNumbers id).tokens := scans_pretty 0 j (by simp [numbers_of_numberFree hnumbers])
  rw [mapNumbers_id] at hscans
  exact read_of_scans hscans hdepth

/-- The compact text of a value without numbers is read as that value, unless it is nested too deep. -/
theorem read_compact {j : Json} (hnumbers : j.numberFree = true) (hdepth : j.depth ≤ maxDepth) :
    Json.read j.compact = some j.lift := by
  have hscans : Scans j.compact.toList (j.mapNumbers id).tokens := scans_compact j (by simp [numbers_of_numberFree hnumbers])
  rw [mapNumbers_id] at hscans
  exact read_of_scans hscans hdepth

/-! ## The depth of what is read

What is nested too deep is read as a fault, so the tree of a text is never deeper than the limit, however deep the text is.
-/

namespace Tree

variable {ε : Type}

theorem itemsDepth_le_iff (items : List (Tree ε)) (n : Nat) : itemsDepth items ≤ n ↔ ∀ t ∈ items, t.depth ≤ n := by
  induction items with
  | nil => simp [itemsDepth]
  | cons t items ih => rw [itemsDepth, Nat.max_le, ih, List.forall_mem_cons]

theorem membersDepth_le_iff (members : List (String × Tree ε)) (n : Nat) :
    membersDepth members ≤ n ↔ ∀ m ∈ members, m.2.depth ≤ n := by
  induction members with
  | nil => simp [membersDepth]
  | cons m members ih => rw [membersDepth, Nat.max_le, ih, List.forall_mem_cons]

theorem depth_le_membersDepth {members : List (String × Tree ε)} {m : String × Tree ε} (h : m ∈ members) :
    m.2.depth ≤ membersDepth members :=
  (membersDepth_le_iff members _).1 (Nat.le_refl _) m h

end Tree

/-- A token without containers in it. -/
def Token.Flat : Token → Prop
  | .leaf t => t.depth = 0
  | _ => True

namespace Token

theorem flat_of_ofNumber? {cs : List Char} {t : Token} (h : ofNumber? cs = some t) : t.Flat := by
  obtain ⟨l, -, rfl⟩ := Option.map_eq_some_iff.1 h
  split <;> rfl

theorem flat_of_ofWord? {word : String} {t : Token} (h : ofWord? word = some t) : t.Flat := by
  unfold ofWord? at h
  split at h
  · cases h; rfl
  · cases h; rfl
  · cases h; rfl
  · cases h

/-- The tokens that a scanner has found so far have no containers in them. -/
def State.Flat (st : State) : Prop := ∀ t ∈ st.tokens, t.Flat

theorem State.Flat.settle {st st' : State} (hst : st.Flat) (h : st.settle = some st') : st'.Flat := by
  unfold State.settle at h
  split at h
  · obtain ⟨t, ht, rfl⟩ := Option.map_eq_some_iff.1 h
    exact List.forall_mem_cons.2 ⟨flat_of_ofNumber? ht, hst⟩
  · obtain ⟨t, ht, rfl⟩ := Option.map_eq_some_iff.1 h
    exact List.forall_mem_cons.2 ⟨flat_of_ofWord? ht, hst⟩
  · cases h
    exact hst

theorem flat_of_start {done : List Token} (hdone : ∀ t ∈ done, t.Flat) {c : Char} {st : State}
    (h : start done c = some st) : st.Flat := by
  unfold start at h
  split at h <;> grind [State.Flat, Token.Flat]

/-- Reading a character adds no token with a container in it. -/
theorem State.Flat.step {st st' : State} (hst : st.Flat) {c : Char} (h : Token.step st c = some st') : st'.Flat := by
  have hsettle : (st.settle.bind fun st => start st.tokens c) = some st' → st'.Flat := by
    intro h
    obtain ⟨st₁, h₁, h⟩ := Option.bind_eq_some_iff.1 h
    exact flat_of_start (hst.settle h₁) h
  unfold Token.step at h
  split at h
  · exact flat_of_start hst h
  · grind [State.Flat, Token.Flat]
  · grind [State.Flat, Option.map_eq_some_iff]
  · grind [State.Flat, Option.map_eq_some_iff]
  · split at h
    · cases h
      exact hst
    · exact hsettle h
  · split at h
    · cases h
      exact hst
    · exact hsettle h

/-- The tokens of a text have no containers in them. -/
theorem flat_of_scan {cs : List Char} {toks : List Token} (h : scan cs = some toks) : ∀ t ∈ toks, t.Flat := by
  have hrun : ∀ (cs : List Char) (st st' : State), st.Flat → cs.foldlM Token.step st = some st' → st'.Flat := by
    intro cs
    induction cs with
    | nil =>
      intro st st' hst h
      cases h
      exact hst
    | cons c cs ih =>
      intro st st' hst h
      rw [List.foldlM_cons] at h
      obtain ⟨st₁, h₁, h⟩ := Option.bind_eq_some_iff.1 h
      exact ih st₁ st' (hst.step h₁) h
  obtain ⟨st₁, h₁, h⟩ := Option.bind_eq_some_iff.1 h
  obtain ⟨st₂, h₂, h⟩ := Option.bind_eq_some_iff.1 h
  have hst₂ := (hrun cs _ st₁ (fun t ht => absurd ht List.not_mem_nil) h₁).settle h₂
  split at h
  · cases h
    intro t ht
    exact hst₂ t (List.mem_reverse.1 ht)
  · cases h

end Token

namespace Reader

/-- The finished parts of open containers are not too deep for the number of containers around them. -/
def FramesBounded : List Frame → Prop
  | [] => True
  | .arr items :: rest => (∀ t ∈ items, t.depth ≤ maxDepth - (rest.length + 1)) ∧ FramesBounded rest
  | .obj members _ _ :: rest => (∀ m ∈ members, m.2.depth ≤ maxDepth - (rest.length + 1)) ∧ FramesBounded rest

/-- No part of what a reader keeps is too deep. -/
def State.Bounded (st : State) : Prop := FramesBounded st.frames ∧ st.result.depth ≤ maxDepth

theorem bounded_of_frames {e : Expect} {frames : List Frame} (h : FramesBounded frames) : State.Bounded ⟨e, frames, .null⟩ :=
  ⟨h, Nat.zero_le _⟩

/-- A finished value that is not too deep for its place may be taken in. -/
theorem bounded_finish {frames : List Frame} (hframes : FramesBounded frames) {t : Document}
    (ht : t.depth ≤ maxDepth - frames.length) : (finish frames t).Bounded := by
  match frames with
  | [] => exact ⟨trivial, ht⟩
  | .arr items :: rest => exact bounded_of_frames ⟨List.forall_mem_cons.2 ⟨ht, hframes.1⟩, hframes.2⟩
  | .obj members _ _ :: rest => exact bounded_of_frames ⟨List.forall_mem_cons.2 ⟨ht, hframes.1⟩, hframes.2⟩

/-- A container that closes is not too deep for its place: at the limit it is a fault. -/
theorem depth_limit_le {rest : List Frame} {t : Document} (ht : t.depth ≤ maxDepth - (rest.length + 1) + 1) :
    (limit rest t).depth ≤ maxDepth - rest.length := by
  unfold limit
  split
  · exact Nat.zero_le _
  · omega

theorem bounded_closeArr {frames : List Frame} (hframes : FramesBounded frames) {st : State}
    (h : closeArr frames = some st) : st.Bounded := by
  unfold closeArr at h
  split at h
  · cases h
    refine bounded_finish hframes.2 (depth_limit_le ?_)
    rw [Tree.depth]
    refine Nat.succ_le_succ ((Tree.itemsDepth_le_iff _ _).2 fun t ht => ?_)
    exact hframes.1 t (List.mem_reverse.1 ht)
  · cases h

theorem bounded_closeObj {frames : List Frame} (hframes : FramesBounded frames) {st : State}
    (h : closeObj frames = some st) : st.Bounded := by
  unfold closeObj at h
  split at h
  · cases h
    refine bounded_finish hframes.2 (depth_limit_le ?_)
    split
    · exact Nat.zero_le _
    · rw [Tree.depth]
      refine Nat.succ_le_succ ((Tree.membersDepth_le_iff _ _).2 fun m hm => ?_)
      exact hframes.1 m (List.mem_reverse.1 hm)
  · cases h

theorem bounded_startValue {frames : List Frame} (hframes : FramesBounded frames) {t : Token} (ht : t.Flat) {st : State}
    (h : startValue frames t = some st) : st.Bounded := by
  unfold startValue at h
  split at h
  · cases h
    exact bounded_of_frames ⟨fun t ht => absurd ht List.not_mem_nil, hframes⟩
  · cases h
    exact bounded_of_frames ⟨fun t ht => absurd ht List.not_mem_nil, hframes⟩
  · cases h
    exact bounded_finish hframes (Nat.zero_le _)
  · cases h
    exact bounded_finish hframes (Nat.zero_le _)
  · cases h
    exact bounded_finish hframes (le_of_eq_of_le ht (Nat.zero_le _))
  · cases h

theorem bounded_takeKey {frames : List Frame} (hframes : FramesBounded frames) {text : Option String} {st : State}
    (h : takeKey frames text = some st) : st.Bounded := by
  unfold takeKey at h
  split at h
  · cases h
    exact bounded_of_frames ⟨hframes.1, hframes.2⟩
  · cases h

/-- A token keeps everything within the limit. -/
theorem State.Bounded.step {st st' : State} (hst : st.Bounded) {t : Token} (ht : t.Flat)
    (h : Reader.step st t = some st') : st'.Bounded := by
  unfold Reader.step at h
  split at h
  · exact bounded_closeArr hst.1 h
  · exact bounded_startValue hst.1 ht h
  · exact bounded_startValue hst.1 ht h
  · exact bounded_closeObj hst.1 h
  · exact bounded_takeKey hst.1 h
  · exact bounded_takeKey hst.1 h
  · cases h
    exact hst
  · exact bounded_closeArr hst.1 h
  · exact bounded_closeObj hst.1 h
  · split at h
    · cases h
      exact hst
    · cases h
      exact hst
    · cases h
  · cases h

end Reader

/-- The tree that a text is read as is not deeper than the limit. -/
theorem depth_of_read {text : String} {t : Document} (h : Json.read text = some t) : t.depth ≤ maxDepth := by
  obtain ⟨toks, hscan, h⟩ := Option.bind_eq_some_iff.1 h
  have hrun : ∀ (toks : List Token) (st st' : Reader.State), (∀ t ∈ toks, t.Flat) → st.Bounded →
      toks.foldlM Reader.step st = some st' → st'.Bounded := by
    intro toks
    induction toks with
    | nil =>
      intro st st' _ hst h
      cases h
      exact hst
    | cons t toks ih =>
      intro st st' htoks hst h
      rw [List.foldlM_cons] at h
      obtain ⟨st₁, h₁, h⟩ := Option.bind_eq_some_iff.1 h
      obtain ⟨ht, htoks⟩ := List.forall_mem_cons.1 htoks
      exact ih st₁ st' htoks (hst.step ht h₁) h
  obtain ⟨st, hst, h⟩ := Option.bind_eq_some_iff.1 h
  have hstart : FramesBounded [] := trivial
  have hbounded := hrun toks _ st (flat_of_scan hscan) (bounded_of_frames hstart) hst
  split at h
  · cases h
    exact hbounded.2
  · cases h

end SdkLoom.Json
