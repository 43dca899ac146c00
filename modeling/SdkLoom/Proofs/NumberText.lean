import SdkLoom.Proofs.JsonText
import SdkLoom.Proofs.ShortestDigits

/-!
# Reading a written number

The text of every number is a literal that is read as a number (`Json.Number.scans_text`), though not always as the same one:
the digits that are written are those that round to the number, but a literal is read with more roundings than one. The only
way for a literal to have no number is to be too large, and the digits that are written for a number are not
(`Json.Literal.scale_shortest`).
-/

namespace SdkLoom.Json

open Decimal Token

/-- A number as JSON has them: an integer of 64 bits, signed or not, or a finite number of double precision. -/
def Number.Valid : Number → Prop
  | .int i => -(2 ^ 63 : Int) ≤ i ∧ i < 2 ^ 64
  | .float (.finite _ m e) => m < pow2 53 ∧ Binary64.minExponent ≤ e ∧ e ≤ Binary64.maxExponent
  | .float _ => False

instance : ∀ n : Number, Decidable n.Valid
  | .int _ => inferInstanceAs (Decidable (_ ∧ _))
  | .float (.finite _ _ _) => inferInstanceAs (Decidable (_ ∧ _ ∧ _))
  | .float (.infinite _) => inferInstanceAs (Decidable False)
  | .float .nan => inferInstanceAs (Decidable False)

namespace Literal

/-! ## Literals by their parts -/

/-- There are digits, and nothing else. -/
def AreDigits (ds : List Char) : Prop := ds ≠ [] ∧ ∀ c ∈ ds, c.isDigit = true

/-- The text of a literal with its sign, the digits before the point, those after it, and the sign and the digits of its
exponent. -/
def spelled (negative : Bool) (whole : List Char) (fraction : Option (List Char)) (exponent : Option (Bool × List Char)) :
    List Char :=
  (if negative then ['-'] else []) ++
    (whole ++ (fraction.elim [] ('.' :: ·) ++ exponent.elim [] fun x => 'e' :: (if x.1 then '-' else '+') :: x.2))

/-- The parts of a literal are digits, and those before the point do not start with a zero that has no use. -/
structure Spells (whole : List Char) (fraction : Option (List Char)) (exponent : Option (Bool × List Char)) : Prop where
  wholeDigits : AreDigits whole
  noLeadingZero : whole.head? = some '0' → whole.length ≤ 1
  fractionDigits : ∀ ds ∈ fraction, AreDigits ds
  exponentDigits : ∀ x ∈ exponent, AreDigits x.2

/-- The literal with some parts. -/
def ofParts (negative : Bool) (whole : List Char) (fraction : Option (List Char)) (exponent : Option (Bool × List Char)) :
    Literal :=
  { negative, whole
    fraction := fraction.getD []
    broken := fraction.isSome || exponent.isSome
    exponentNegative := exponent.any Prod.fst
    exponent := (exponent.map Prod.snd).getD [] }

/-- Digits are read up to what is none. -/
theorem takeWhile_isDigit {ds rest : List Char} (hds : ∀ c ∈ ds, c.isDigit = true)
    (hrest : ∀ c ∈ rest.head?, c.isDigit = false) :
    (ds ++ rest).takeWhile Char.isDigit = ds ∧ (ds ++ rest).dropWhile Char.isDigit = rest := by
  rw [List.takeWhile_append_of_pos hds, List.dropWhile_append_of_pos hds]
  cases rest with
  | nil => simp
  | cons c rest => simp [hrest c rfl]

section Spells

variable {whole : List Char} {fraction : Option (List Char)} {exponent : Option (Bool × List Char)}
  (h : Spells whole fraction exponent)
include h

theorem readExponent_spelled :
    readExponent (exponent.elim [] fun x => 'e' :: (if x.1 then '-' else '+') :: x.2) =
      some (exponent.any Prod.fst, (exponent.map Prod.snd).getD []) := by
  cases exponent with
  | none => rfl
  | some x =>
    obtain ⟨negative, ds⟩ := x
    obtain ⟨hne, hdigits⟩ := h.exponentDigits _ rfl
    have hall : ds.all Char.isDigit = true := List.all_eq_true.2 hdigits
    cases negative <;> simp_all [readExponent]

theorem isEmpty_or_leadingZero :
    (whole.isEmpty || whole.head? == some '0' && decide (whole.length > 1)) = false := by
  simp only [Bool.or_eq_false_iff, List.isEmpty_eq_false_iff, Bool.and_eq_false_imp, beq_iff_eq, decide_eq_false_iff_not]
  refine ⟨h.wholeDigits.1, fun hzero => ?_⟩
  have := h.noLeadingZero hzero
  omega

/-- A literal is read as its parts. -/
theorem read_spelled (negative : Bool) :
    read (spelled negative whole fraction exponent) = some (ofParts negative whole fraction exponent) := by
  have hexponent := readExponent_spelled h
  have hwhole := isEmpty_or_leadingZero h
  obtain ⟨exp, hexp⟩ : ∃ exp, exp = exponent.elim [] fun x => 'e' :: (if x.1 then '-' else '+') :: x.2 := ⟨_, rfl⟩
  have hexpHead : ∀ c ∈ exp.head?, c.isDigit = false ∧ c ≠ '.' := by
    subst hexp
    cases exponent <;> simp
  have hexpEmpty : exp.isEmpty = !exponent.isSome := by
    subst hexp
    cases exponent <;> rfl
  rw [spelled]
  rw [← hexp] at hexponent ⊢
  obtain ⟨body, hbody⟩ : ∃ body, body = whole ++ (fraction.elim [] ('.' :: ·) ++ exp) := ⟨_, rfl⟩
  have hsplit : body.takeWhile Char.isDigit = whole ∧
      body.dropWhile Char.isDigit = fraction.elim [] ('.' :: ·) ++ exp := by
    subst hbody
    refine takeWhile_isDigit h.wholeDigits.2 ?_
    cases fraction with
    | none => exact fun c hc => (hexpHead c hc).1
    | some ds => simp
  -- what follows the sign is no sign, and an exponent is no point
  have hunsigned : ∀ rest, body = '-' :: rest → False := by
    rintro rest rfl
    rw [show ('-' :: rest).takeWhile Char.isDigit = [] from rfl] at hsplit
    exact h.wholeDigits.1 hsplit.1.symm
  have hpoint : ∀ rest, exp = '.' :: rest → False := by
    rintro rest rfl
    exact (hexpHead _ rfl).2 rfl
  rw [← hbody]
  cases fraction with
  | none => cases negative <;> simp [read, hsplit, hwhole, hexponent, hexpEmpty, ofParts]
  | some ds =>
    have hdigits := h.fractionDigits ds rfl
    have hds := takeWhile_isDigit hdigits.2 fun c hc => (hexpHead c hc).1
    cases negative <;> simp [read, hsplit, hwhole, hexponent, hds, hdigits.1, ofParts]

theorem isNumberChar_of_mem_spelled (negative : Bool) :
    ∀ c ∈ spelled negative whole fraction exponent, isNumberChar c = true := by
  have hdigits : ∀ {ds : List Char}, AreDigits ds → ∀ c ∈ ds, isNumberChar c = true := by
    intro ds hds c hc
    simp [isNumberChar, hds.2 c hc]
  have hfraction : ∀ c ∈ fraction.elim [] ('.' :: ·), isNumberChar c = true := by
    cases fraction with
    | none => simp
    | some ds => exact List.forall_mem_cons.2 ⟨rfl, hdigits (h.fractionDigits ds rfl)⟩
  have hexponent : ∀ c ∈ exponent.elim [] fun x => 'e' :: (if x.1 then '-' else '+') :: x.2, isNumberChar c = true := by
    cases exponent with
    | none => simp
    | some x =>
      have hsign : isNumberChar (if x.1 then '-' else '+') = true := by cases x.1 <;> rfl
      exact List.forall_mem_cons.2 ⟨rfl, List.forall_mem_cons.2 ⟨hsign, hdigits (h.exponentDigits x rfl)⟩⟩
  have hsign : ∀ c ∈ if negative then ['-'] else [], isNumberChar c = true := by
    cases negative <;> simp [isNumberChar]
  exact List.forall_mem_append.2
    ⟨hsign, List.forall_mem_append.2 ⟨hdigits h.wholeDigits, List.forall_mem_append.2 ⟨hfraction, hexponent⟩⟩⟩

theorem exists_cons_spelled (negative : Bool) :
    ∃ c cs, spelled negative whole fraction exponent = c :: cs ∧ (c.isDigit || c == '-') = true := by
  cases negative with
  | true => exact ⟨'-', _, rfl, rfl⟩
  | false =>
    obtain ⟨c, ws, rfl⟩ := List.exists_cons_of_ne_nil h.wholeDigits.1
    exact ⟨c, _, rfl, by simp [h.wholeDigits.2 c List.mem_cons_self]⟩

/-- A literal that stands for a number is scanned as that number. -/
theorem scans_spelled {negative : Bool} {n : Number} (hn : (ofParts negative whole fraction exponent).number = .ok n) :
    Scans (spelled negative whole fraction exponent) [.leaf (.num n)] := by
  have hchars := isNumberChar_of_mem_spelled h negative
  have hread := read_spelled h negative
  obtain ⟨c, cs, hcons, hstart⟩ := exists_cons_spelled h negative
  rw [hcons] at hchars hread ⊢
  refine scans_number hstart (fun d hd => hchars d (List.mem_cons_of_mem c hd)) ?_
  rw [ofNumber?, hread, Option.map_some, hn]

end Spells

/-! ## The numbers of literals -/

/-- The number that digits stand for after those of another one. -/
def digitsValue (s : Nat) (ds : List Char) : Nat := Nat.ofDigitChars 10 ds s

theorem digitsValue_cons (s : Nat) (c : Char) (ds : List Char) :
    digitsValue s (c :: ds) = digitsValue (s * 10 + digit c) ds := by
  rw [digitsValue, Nat.ofDigitChars_cons, Nat.mul_comm]
  rfl

theorem digitsValue_append (s : Nat) (ds es : List Char) : digitsValue s (ds ++ es) = digitsValue (digitsValue s ds) es :=
  Nat.ofDigitChars_append s

theorem digitsValue_zeros (s n : Nat) : digitsValue s (zeros n) = pow10 n * s := Nat.ofDigitChars_replicate_zero

theorem digitsValue_toDigits (n : Nat) : digitsValue 0 (Nat.toDigits 10 n) = n := Nat.ofDigitChars_ten_toDigits

theorem le_digitsValue (s : Nat) (ds : List Char) : s ≤ digitsValue s ds := by
  rw [digitsValue, Nat.ofDigitChars_eq_ofDigitChars_zero]
  exact (Nat.le_mul_of_pos_left s (pow10_pos ds.length)).trans (Nat.le_add_right _ _)

theorem digitsValue_lt {ds : List Char} (hds : ∀ c ∈ ds, c.isDigit = true) : digitsValue 0 ds < pow10 ds.length := by
  induction ds with
  | nil => decide
  | cons c ds ih =>
    have hdigit : digit c ≤ 9 := by
      have := (Char.isDigit_iff_toNat.1 (hds c List.mem_cons_self)).2
      simp only [digit, Char.reduceToNat] at this ⊢
      omega
    have hrest : digitsValue 0 ds < pow10 ds.length := ih fun d hd => hds d (List.mem_cons_of_mem c hd)
    rw [digitsValue_cons, Nat.zero_mul, Nat.zero_add, digitsValue, Nat.ofDigitChars_eq_ofDigitChars_zero]
    change pow10 ds.length * digit c + digitsValue 0 ds < 10 ^ (ds.length + 1)
    calc pow10 ds.length * digit c + digitsValue 0 ds < pow10 ds.length * 9 + pow10 ds.length :=
          Nat.add_lt_add_of_le_of_lt (Nat.mul_le_mul_left _ hdigit) hrest
      _ = 10 ^ ds.length * 10 := Nat.mul_succ _ 9 |>.symm
      _ = 10 ^ (ds.length + 1) := (Nat.pow_succ ..).symm

/-- All digits are gathered if the number that they stand for fits. -/
theorem gather_of_le {ds : List Char} {s : Nat} (h : digitsValue s ds ≤ maxSignificand) :
    gather s ds = (digitsValue s ds, 0) := by
  induction ds generalizing s with
  | nil => rfl
  | cons c ds ih =>
    rw [digitsValue_cons] at h ⊢
    have hle := le_digitsValue (s * 10 + digit c) ds
    rw [gather, if_neg (by omega), ih h]

theorem gather_toDigits {n : Nat} (h : n ≤ maxSignificand) : gather 0 (Nat.toDigits 10 n) = (n, 0) := by
  rw [gather_of_le (by rwa [digitsValue_toDigits]), digitsValue_toDigits]

theorem gatherFraction_of_le {ds : List Char} {s : Nat} (h : digitsValue s ds ≤ maxSignificand) :
    gatherFraction s ds = (digitsValue s ds, ds.length) := by
  induction ds generalizing s with
  | nil => rfl
  | cons c ds ih =>
    rw [digitsValue_cons] at h ⊢
    have hle := le_digitsValue (s * 10 + digit c) ds
    rw [gatherFraction, if_neg (by omega), ih h]
    rfl

theorem readPower_of_le {ds : List Char} {e : Nat} (h : digitsValue e ds ≤ maxExponent) :
    readPower e ds = some (digitsValue e ds) := by
  induction ds generalizing e with
  | nil => rfl
  | cons c ds ih =>
    rw [digitsValue_cons] at h ⊢
    have hle := le_digitsValue (e * 10 + digit c) ds
    rw [readPower, if_neg (by omega), ih h]

theorem eq_of_readPower {ds : List Char} {e v : Nat} (h : readPower e ds = some v) : v = digitsValue e ds := by
  induction ds generalizing e with
  | nil => exact (Option.some.inj h).symm
  | cons c ds ih =>
    rw [readPower] at h
    split at h
    next => cases h
    next => rw [digitsValue_cons, ih h]

theorem scale_of_neg {s : Nat} {e : Int} (he : e < 0) : ∃ x, scale s e = .ok x := ⟨_, if_pos he⟩

/-- A literal whose digits fit is a number if they can be scaled by its exponent less the length of its fraction. -/
theorem exists_number (negative : Bool) {whole : List Char} {fraction : Option (List Char)}
    {exponent : Option (Bool × List Char)} (hbroken : (fraction.isSome || exponent.isSome) = true)
    (hfits : digitsValue 0 (whole ++ fraction.getD []) ≤ maxSignificand)
    (hscale : ∀ e, readPower 0 ((exponent.map Prod.snd).getD []) = some e →
      ∃ x, scale (digitsValue 0 (whole ++ fraction.getD []))
        (if exponent.any Prod.fst then -(fraction.getD []).length - e else -(fraction.getD []).length + e) = .ok x)
    (hpower : readPower 0 ((exponent.map Prod.snd).getD []) = none → exponent.any Prod.fst = true) :
    ∃ n, (ofParts negative whole fraction exponent).number = .ok n := by
  rw [digitsValue_append] at hfits hscale
  have hwhole : gather 0 whole = (digitsValue 0 whole, 0) := gather_of_le ((le_digitsValue _ _).trans hfits)
  have hfraction := gatherFraction_of_le hfits
  rw [number, ofParts]
  dsimp only
  rw [hwhole, hbroken, if_neg (by simp)]
  dsimp only
  rw [hfraction]
  dsimp only
  cases hread : readPower 0 ((exponent.map Prod.snd).getD []) with
  | some e =>
    obtain ⟨x, hx⟩ := hscale e hread
    rw [Nat.cast_zero, Int.zero_sub]
    dsimp only
    rw [hx]
    exact ⟨_, rfl⟩
  | none =>
    rw [hpower hread]
    exact ⟨_, if_neg (by simp)⟩

/-- A literal with a fraction and no exponent is a number if its digits fit. -/
theorem exists_number_of_fraction (negative : Bool) {whole ds : List Char} (hds : ds ≠ [])
    (hfits : digitsValue 0 (whole ++ ds) ≤ maxSignificand) :
    ∃ n, (ofParts negative whole (some ds) none).number = .ok n := by
  refine exists_number negative rfl hfits (fun e he => ?_) nofun
  obtain rfl : 0 = e := Option.some.inj he
  have hlength := List.length_pos_iff.2 hds
  refine scale_of_neg ?_
  simp only [Option.any_none, Bool.false_eq_true, if_false, Option.getD_some]
  omega

/-- A literal with a negative exponent is a number if its digits fit. -/
theorem exists_number_of_negative (negative : Bool) {whole : List Char} {fraction : Option (List Char)} {e : Nat}
    (he : 0 < e) (hfits : digitsValue 0 (whole ++ fraction.getD []) ≤ maxSignificand) :
    ∃ n, (ofParts negative whole fraction (some (true, Nat.toDigits 10 e))).number = .ok n := by
  refine exists_number negative (Bool.or_true _) hfits (fun v hv => scale_of_neg ?_) fun _ => rfl
  have hvalue : v = e := (eq_of_readPower hv).trans (digitsValue_toDigits e)
  simp only [Option.any_some, if_true]
  omega

/-- A literal with another exponent is a number if its digits fit and are not scaled out of range. -/
theorem exists_number_of_scale (negative : Bool) {whole : List Char} {fraction : Option (List Char)} {e : Nat}
    (he : e ≤ maxExponent) (hfits : digitsValue 0 (whole ++ fraction.getD []) ≤ maxSignificand)
    (hscale : ∃ x, scale (digitsValue 0 (whole ++ fraction.getD [])) (e - (fraction.getD []).length) = .ok x) :
    ∃ n, (ofParts negative whole fraction (some (false, Nat.toDigits 10 e))).number = .ok n := by
  have hread : readPower 0 (Nat.toDigits 10 e) = some e := by
    rw [readPower_of_le (by rwa [digitsValue_toDigits]), digitsValue_toDigits]
  refine exists_number negative (Bool.or_true _) hfits (fun v hv => ?_) fun hnone => ?_
  · obtain rfl : e = v := Option.some.inj (hread.symm.trans hv)
    rwa [Option.any_some, if_neg Bool.false_ne_true, neg_add_eq_sub]
  · rw [Option.map_some, Option.getD_some, hread] at hnone
    cases hnone

/-- A text that is a literal of some number. -/
def IsRead (text : List Char) : Prop :=
  ∃ negative whole fraction exponent, Spells whole fraction exponent ∧ text = spelled negative whole fraction exponent ∧
    ∃ n, (ofParts negative whole fraction exponent).number = .ok n

theorem areDigits_toDigits (n : Nat) : AreDigits (Nat.toDigits 10 n) :=
  ⟨Nat.toDigits_ne_nil, fun _ hc => Nat.isDigit_of_mem_toDigits (by decide) (by decide) hc⟩

theorem spells_toDigits (n : Nat) : Spells (Nat.toDigits 10 n) none none where
  wholeDigits := areDigits_toDigits n
  noLeadingZero hzero := by
    cases n with
    | zero => decide
    | succ n => exact absurd hzero (head?_toDigits_ne n.succ_pos)
  fractionDigits := nofun
  exponentDigits := nofun

theorem isRead_int {i : Int} (h : (Number.int i).Valid) : IsRead (toString i).toList := by
  obtain ⟨hlow, hhigh⟩ := h
  cases i with
  | ofNat n =>
    have hgather : gather 0 (Nat.toDigits 10 n) = (n, 0) := by
      refine gather_toDigits (show n ≤ 2 ^ 64 - 1 from ?_)
      have : (n : Int) < 2 ^ 64 := hhigh
      omega
    refine ⟨false, Nat.toDigits 10 n, none, none, spells_toDigits n, ?_, .int n, ?_⟩
    · rw [show toString (Int.ofNat n) = n.repr from rfl, Nat.toList_repr]
      simp [spelled]
    · rw [number, ofParts]
      dsimp only
      rw [hgather]
      rfl
  | negSucc n =>
    have hfits : 0 < n + 1 ∧ n + 1 ≤ pow2 63 := by
      change 0 < n + 1 ∧ n + 1 ≤ 2 ^ 63
      have : -(2 ^ 63 : Int) ≤ Int.negSucc n := hlow
      omega
    have hgather : gather 0 (Nat.toDigits 10 (n + 1)) = (n + 1, 0) := gather_toDigits (hfits.2.trans (by decide))
    refine ⟨true, Nat.toDigits 10 (n + 1), none, none, spells_toDigits _, ?_, .int (Int.negSucc n), ?_⟩
    · rw [show toString (Int.negSucc n) = "-" ++ (n + 1).repr from rfl, String.toList_append, Nat.toList_repr]
      simp [spelled]
    · rw [number, ofParts]
      dsimp only
      rw [hgather]
      exact if_pos hfits

/-! ### Digits with a point -/

theorem significand_lt {d : Digits} (hd : d.Proper) : d.significand < pow10 17 :=
  (digitsValue_lt hd.isDigit).trans_le (pow10_le hd.length_le)

theorem significand_pos {d : Digits} (hd : d.Proper) : 0 < d.significand := by
  obtain ⟨c, ds, hcons⟩ := List.exists_cons_of_ne_nil hd.nonempty
  have hdigit := hd.isDigit
  have hhead := hd.head
  rw [hcons] at hdigit hhead
  have hc := Char.isDigit_iff_toNat.1 (hdigit c List.mem_cons_self)
  have hzero : c.toNat ≠ '0'.toNat := fun heq => hhead (congrArg some (Char.toNat_inj.1 heq))
  change 0 < digitsValue 0 d.digits
  rw [hcons, digitsValue_cons]
  refine Nat.lt_of_lt_of_le ?_ (le_digitsValue _ _)
  unfold digit
  omega

theorem pow10_le_maxSignificand : pow10 17 ≤ maxSignificand := by decide

theorem significand_fits {d : Digits} (hd : d.Proper) : digitsValue 0 d.digits ≤ maxSignificand :=
  (significand_lt hd).le.trans pow10_le_maxSignificand

theorem areDigits_zero : AreDigits ['0'] := ⟨nofun, by simp⟩

theorem isDigit_of_mem_zeros (n : Nat) : ∀ c ∈ zeros n, c.isDigit = true := by
  intro c hc
  rw [List.eq_of_mem_replicate hc]
  rfl

/-- A text of digits on both sides of a point, which fit into a significand. -/
def IsPointed (text : List Char) : Prop :=
  ∃ whole ds, Spells whole (some ds) none ∧ text = whole ++ '.' :: ds ∧ digitsValue 0 (whole ++ ds) ≤ maxSignificand

theorem isPointed_of {whole ds : List Char} (hwhole : AreDigits whole) (hzero : whole.head? = some '0' → whole.length ≤ 1)
    (hds : AreDigits ds) (hfits : digitsValue 0 (whole ++ ds) ≤ maxSignificand) : IsPointed (whole ++ '.' :: ds) :=
  ⟨whole, ds, ⟨hwhole, hzero, by rintro _ ⟨⟩; exact hds, nofun⟩, rfl, hfits⟩

section Positional

variable {d : Digits} (hd : d.Proper)
include hd

theorem isPointed_before (n : Nat) : IsPointed (['0'] ++ '.' :: (zeros n ++ d.digits)) := by
  refine isPointed_of areDigits_zero (fun _ => le_rfl) ⟨?_, ?_⟩ ?_
  · simp [hd.nonempty]
  · exact List.forall_mem_append.2 ⟨isDigit_of_mem_zeros n, hd.isDigit⟩
  · rw [List.singleton_append, digitsValue_cons, digitsValue_append, digitsValue_zeros,
      show 0 * 10 + digit '0' = 0 from rfl, Nat.mul_zero]
    exact significand_fits hd

theorem isPointed_after {n : Nat} (hn : d.digits.length + n ≤ 16) : IsPointed ((d.digits ++ zeros n) ++ '.' :: ['0']) := by
  have hdigits : ∀ c ∈ d.digits ++ zeros n, c.isDigit = true :=
    List.forall_mem_append.2 ⟨hd.isDigit, isDigit_of_mem_zeros n⟩
  refine isPointed_of ⟨?_, hdigits⟩ ?_ areDigits_zero ?_
  · simp [hd.nonempty]
  · obtain ⟨c, ds, hcons⟩ := List.exists_cons_of_ne_nil hd.nonempty
    have hhead := hd.head
    rw [hcons] at hhead ⊢
    exact fun hzero => absurd hzero hhead
  · have hlength : (d.digits ++ zeros n ++ ['0']).length ≤ 17 := by
      simp only [List.length_append, zeros, List.length_replicate, List.length_singleton]
      omega
    have hlt := digitsValue_lt (List.forall_mem_append.2 ⟨hdigits, areDigits_zero.2⟩)
    exact hlt.le.trans ((pow10_le hlength).trans pow10_le_maxSignificand)

theorem isPointed_within {n : Nat} (hpos : 0 < n) (hlt : n < d.digits.length) :
    IsPointed (d.digits.take n ++ '.' :: d.digits.drop n) := by
  refine isPointed_of ⟨?_, ?_⟩ ?_ ⟨?_, ?_⟩ ?_
  · rw [ne_eq, List.take_eq_nil_iff]
    rintro (hn | hnil)
    · omega
    · exact hd.nonempty hnil
  · exact fun c hc => hd.isDigit c (List.mem_of_mem_take hc)
  · rw [List.head?_take, if_neg (by omega)]
    exact fun hzero => absurd hzero hd.head
  · rw [ne_eq, List.drop_eq_nil_iff]
    omega
  · exact fun c hc => hd.isDigit c (List.mem_of_mem_drop hc)
  · rw [List.take_append_drop]
    exact significand_fits hd

/-- The point stands before the digits, after them, or within. -/
theorem isPointed_positional (hpoint : d.point ≤ 16) : IsPointed (positional d ".0").toList := by
  by_cases hsmall : d.point ≤ 0
  · rw [positional, if_pos hsmall, String.toList_ofList]
    exact isPointed_before hd _
  by_cases hlarge : d.point ≥ d.digits.length
  · rw [positional, if_neg hsmall, if_pos hlarge, String.toList_append, String.toList_ofList]
    exact isPointed_after hd (by omega)
  · rw [positional, if_neg hsmall, if_neg hlarge, String.toList_ofList]
    exact isPointed_within hd (by omega) (by omega)

end Positional

/-! ### Digits with an exponent -/

theorem step_le {e : Int} {n : Nat} (he : e ≤ n + 2) : Interval.step e ≤ pow2 n := pow2_le (by omega)

/-- A number and half a step more, if it is not the greatest number. -/
theorem high_le {m : Nat} {e : Int} (h : InRange m e) (hne : ¬(m = pow2 53 - 1 ∧ e = Binary64.maxExponent)) :
    (4 * m + 2) * Interval.step e ≤ nearOverflow := by
  have hm := h.lt
  have he := h.high
  unfold Binary64.maxExponent at he hne
  by_cases hgreatest : m = pow2 53 - 1
  · calc (4 * m + 2) * Interval.step e ≤ (4 * (pow2 53 - 1) + 2) * pow2 968 :=
          Nat.mul_le_mul (by omega) (step_le (by omega))
      _ ≤ nearOverflow := by decide +kernel
  · calc (4 * m + 2) * Interval.step e ≤ (4 * (pow2 53 - 2) + 2) * pow2 969 :=
          Nat.mul_le_mul (by omega) (step_le (by omega))
      _ ≤ nearOverflow := by decide +kernel

theorem shortest_greatest : shortest (pow2 53 - 1) Binary64.maxExponent = ⟨"17976931348623157".toList, 309⟩ := by
  decide +kernel

theorem scale_greatest : ∃ x, scale 17976931348623157 292 = .ok x := by
  have hok : (scale 17976931348623157 292).isOk = true := by decide +kernel
  cases hscale : scale 17976931348623157 292 with
  | ok x => exact ⟨x, rfl⟩
  | error f =>
    rw [hscale] at hok
    cases hok

/-- The shortest digits of a number are not scaled out of range. -/
theorem scale_shortest {m : Nat} {e : Int} (h : InRange m e) :
    ∃ x, scale (shortest m e).significand ((shortest m e).point - (shortest m e).digits.length) = .ok x := by
  obtain ⟨hproper, hvalue⟩ := shortest_spec h
  by_cases hneg : (shortest m e).point - (shortest m e).digits.length < 0
  · exact scale_of_neg hneg
  obtain ⟨k, hk⟩ := Int.eq_ofNat_of_zero_le (Int.not_lt.1 hneg)
  by_cases hgreatest : m = pow2 53 - 1 ∧ e = Binary64.maxExponent
  · obtain ⟨rfl, rfl⟩ := hgreatest
    have hsignificand : (shortest (pow2 53 - 1) Binary64.maxExponent).significand = 17976931348623157 := by
      rw [shortest_greatest]
      decide
    rw [hsignificand, shortest_greatest]
    exact scale_greatest
  · rw [hk]
    exact scale_eq_ok (significand_pos hproper) (significand_lt hproper).le
      ((hvalue k (by omega)).trans (high_le h hgreatest))

theorem point_le {m : Nat} {e : Int} (h : InRange m e) : (shortest m e).point ≤ 325 := by
  obtain ⟨hproper, hvalue⟩ := shortest_spec h
  have hlength := hproper.length_le
  by_contra hlt
  obtain ⟨k, hk⟩ : ∃ k : Nat, (shortest m e).point = (shortest m e).digits.length + k :=
    ⟨((shortest m e).point - (shortest m e).digits.length).toNat, by omega⟩
  have hm := h.lt
  have he := h.high
  unfold Binary64.maxExponent at he
  have hlarge : pow10 309 ≤ pow10 k := pow10_le (by omega)
  have hsmall : pow10 k ≤ (4 * pow2 53 + 2) * pow2 969 :=
    calc pow10 k ≤ (shortest m e).significand * pow10 k := Nat.le_mul_of_pos_left _ (significand_pos hproper)
      _ ≤ (4 * m + 2) * Interval.step e := hvalue k hk
      _ ≤ (4 * pow2 53 + 2) * pow2 969 := Nat.mul_le_mul (by omega) (step_le (by omega))
  exact absurd (hlarge.trans hsmall) (by decide +kernel)

/-- The digits after the first one, if there are any. -/
def tail? (d : Digits) : Option (List Char) := if (d.digits.drop 1).isEmpty then none else some (d.digits.drop 1)

theorem tail?_getD (d : Digits) : (tail? d).getD [] = d.digits.drop 1 := by
  unfold tail?
  split
  next h => exact (List.isEmpty_iff.1 h).symm
  next => rfl

theorem spells_scientific {d : Digits} (hd : d.Proper) (negative : Bool) (e : Nat) :
    Spells (d.digits.take 1) (tail? d) (some (negative, Nat.toDigits 10 e)) where
  wholeDigits := ⟨by simp [hd.nonempty], fun c hc => hd.isDigit c (List.mem_of_mem_take hc)⟩
  noLeadingZero _ := List.length_take_le 1 _
  fractionDigits ds hds := by
    unfold tail? at hds
    split at hds
    next => cases hds
    next h =>
      obtain rfl := Option.some.inj hds
      exact ⟨fun hnil => h (List.isEmpty_iff.2 hnil), fun c hc => hd.isDigit c (List.mem_of_mem_drop hc)⟩
  exponentDigits x hx := by
    obtain rfl := Option.some.inj hx
    exact areDigits_toDigits e

theorem toList_scientific (d : Digits) :
    (scientific d).toList =
      spelled false (d.digits.take 1) (tail? d) (some (decide (d.point - 1 < 0), Nat.toDigits 10 (d.point - 1).natAbs)) := by
  unfold scientific tail? spelled
  dsimp only
  by_cases hneg : d.point - 1 < 0 <;> by_cases hrest : d.digits.tail = [] <;> simp [hneg, hrest]

/-- The shortest digits of a number with an exponent are a literal of some number. -/
theorem exists_number_scientific {m : Nat} {e : Int} (h : InRange m e) (negative : Bool) :
    ∃ n, (ofParts negative ((shortest m e).digits.take 1) (tail? (shortest m e))
      (some (decide ((shortest m e).point - 1 < 0), Nat.toDigits 10 ((shortest m e).point - 1).natAbs))).number = .ok n := by
  obtain ⟨hproper, -⟩ := shortest_spec h
  have hscale := scale_shortest h
  have hpoint := point_le h
  have hlength := List.length_pos_iff.2 hproper.nonempty
  generalize shortest m e = d at *
  have hvalue : digitsValue 0 (d.digits.take 1 ++ (tail? d).getD []) = d.significand := by
    rw [tail?_getD, List.take_append_drop]
    rfl
  have hfits : d.significand ≤ maxSignificand := significand_fits hproper
  by_cases hneg : d.point - 1 < 0
  · rw [decide_eq_true hneg]
    exact exists_number_of_negative negative (by omega) (by rwa [hvalue])
  · rw [decide_eq_false hneg]
    refine exists_number_of_scale negative ?_ (by rwa [hvalue]) ?_
    · change _ ≤ 2 ^ 31 - 1
      omega
    · rw [hvalue, tail?_getD, List.length_drop]
      rwa [show ((d.point - 1).natAbs : Int) - ((d.digits.length - 1 : Nat) : Int) = d.point - d.digits.length by omega]

theorem isRead_float {negative : Bool} {m : Nat} {e : Int} (h : (Number.float (.finite negative m e)).Valid) :
    IsRead (numberLayout.text (.finite negative m e)).toList := by
  obtain ⟨hlt, hlow, hhigh⟩ := h
  have hsign : (if negative then "-" else "").toList = if negative then ['-'] else [] := by cases negative <;> rfl
  rw [Layout.text]
  by_cases hzero : m = 0
  · rw [if_pos hzero]
    refine ⟨negative, ['0'], some ['0'], none, ?_, ?_, exists_number_of_fraction negative (by simp) (by decide)⟩
    · exact ⟨areDigits_zero, fun _ => le_rfl, by rintro _ ⟨⟩; exact areDigits_zero, nofun⟩
    · rw [String.toList_append, String.toList_append, hsign]
      simp [spelled, numberLayout]
  · have hrange : InRange m e := ⟨Nat.pos_of_ne_zero hzero, hlt, hlow, hhigh⟩
    obtain ⟨hproper, -⟩ := shortest_spec hrange
    rw [if_neg hzero]
    dsimp only [numberLayout]
    rw [String.toList_append, hsign]
    by_cases hplain : (decide (-4 ≤ (shortest m e).point) && decide ((shortest m e).point ≤ 16)) = true
    · rw [if_pos hplain]
      rw [Bool.and_eq_true, decide_eq_true_eq, decide_eq_true_eq] at hplain
      obtain ⟨whole, ds, hspells, htext, hfits⟩ := isPointed_positional hproper hplain.2
      refine ⟨negative, whole, some ds, none, hspells, ?_,
        exists_number_of_fraction negative (hspells.fractionDigits ds rfl).1 hfits⟩
      rw [htext]
      simp [spelled]
    · rw [if_neg hplain]
      refine ⟨negative, _, _, _, spells_scientific hproper _ _, ?_, exists_number_scientific hrange negative⟩
      rw [toList_scientific]
      rfl

end Literal

/-- The number that the text of a number is read as. -/
def Number.reread (n : Number) : Number :=
  match (Literal.read n.text.toList).map Literal.number with
  | some (.ok m) => m
  | _ => n

theorem Number.isRead_text {n : Number} (h : n.Valid) : Literal.IsRead n.text.toList := by
  cases n with
  | int i => exact Literal.isRead_int h
  | float x =>
    cases x with
    | finite negative m e => exact Literal.isRead_float h
    | infinite _ => exact h.elim
    | nan => exact h.elim

/-- The text of a number is scanned as a number. -/
theorem Number.scans_text {n : Number} (h : n.Valid) : Scans n.text.toList [.leaf (.num n.reread)] := by
  obtain ⟨negative, whole, fraction, exponent, hspells, htext, m, hm⟩ := isRead_text h
  have hreread : n.reread = m := by
    rw [reread, htext, Literal.read_spelled hspells, Option.map_some, hm]
  rw [htext, hreread]
  exact Literal.scans_spelled hspells hm

end SdkLoom.Json
