import SdkLoom.Decimal.Shortest
import SdkLoom.Proofs.Rounding

/-!
# The shortest digits of a number

A number of double precision that is not zero has at most 17 digits, of which the first is not zero, and the decimal that
they stand for is at most half way above the number (`Decimal.shortest_spec`). The search for them starts from the place of
the point, which is found from the number of bits (`Decimal.pointOf_spec`); and a grid of 17 digits is so fine that one of the
two points on it around a number rounds to the number (`Decimal.candidate_seventeen`).
-/

namespace SdkLoom.Decimal

/-! ## Powers of ten as quotients -/

/-- The numerator of a power of ten. -/
def tenNum (p : Int) : Nat := pow10 p.toNat

/-- The denominator of a power of ten. -/
def tenDen (p : Int) : Nat := pow10 (-p).toNat

theorem tenNum_pos (p : Int) : 0 < tenNum p := pow10_pos _

theorem tenDen_pos (p : Int) : 0 < tenDen p := pow10_pos _

theorem ite_tenNum (p : Int) : (if p ≥ 0 then pow10 p.toNat else 1) = tenNum p := by
  split
  · rfl
  · rw [tenNum, show p.toNat = 0 by omega]
    rfl

theorem ite_tenDen (p : Int) : (if p ≥ 0 then 1 else pow10 (-p).toNat) = tenDen p := by
  split
  · rw [tenDen, show (-p).toNat = 0 by omega]
    rfl
  · rfl

theorem tenNum_add (p : Int) (j : Nat) : tenNum (p + j) * tenDen p = pow10 j * tenNum p * tenDen (p + j) := by
  have hexp : (p + j).toNat + (-p).toNat = j + p.toNat + (-(p + j)).toNat := by omega
  have hpow : ∀ a b, pow10 a * pow10 b = pow10 (a + b) := fun a b => (pow_add 10 a b).symm
  rw [tenNum, tenDen, tenNum, tenDen, hpow, hpow, hpow, hexp]

/-! ## The place of the point -/

/-- A quotient is below a power of ten. -/
def Below (num den : Nat) (p : Int) : Prop := num * tenDen p < den * tenNum p

theorem ite_below (num den : Nat) (p : Int) :
    (if p ≥ 0 then num < den * pow10 p.toNat else num * pow10 (-p).toNat < den) ↔ Below num den p := by
  rw [Below, tenNum, tenDen]
  split
  next hp => rw [show (-p).toNat = 0 by omega, show pow10 0 = 1 from rfl, Nat.mul_one]
  next hp => rw [show p.toNat = 0 by omega, show pow10 0 = 1 from rfl, Nat.mul_one]

theorem pointFrom_succ (num den fuel : Nat) (p : Int) [Decidable (Below num den p)] :
    pointFrom num den (fuel + 1) p = if Below num den p then p else pointFrom num den fuel (p + 1) := by
  rw [pointFrom]
  exact if_congr (ite_below num den p) rfl rfl

/-- Multiplying a power of ten by another. -/
theorem below_add_iff (num den : Nat) (p : Int) (j : Nat) :
    Below num den (p + j) ↔ num * tenDen p < den * tenNum p * pow10 j := by
  have hnum : num * tenDen (p + j) * tenDen p = num * tenDen p * tenDen (p + j) := by ring
  have hden : den * tenNum (p + j) * tenDen p = den * tenNum p * pow10 j * tenDen (p + j) := by
    rw [Nat.mul_assoc, tenNum_add]
    ring
  rw [Below, ← Nat.mul_lt_mul_right (tenDen_pos p), hnum, hden, Nat.mul_lt_mul_right (tenDen_pos _)]

/-- The search ends at the first power of ten above a quotient, if it starts not above and has the fuel to get there. -/
theorem pointFrom_spec {num den fuel : Nat} {p : Int} (hlow : ¬ Below num den (p - 1)) (hhigh : Below num den (p + fuel)) :
    Below num den (pointFrom num den fuel p) ∧ ¬ Below num den (pointFrom num den fuel p - 1) := by
  classical
  induction fuel generalizing p with
  | zero =>
    rw [pointFrom]
    exact ⟨by simpa using hhigh, hlow⟩
  | succ fuel ih =>
    rw [pointFrom_succ]
    split
    next hbelow => exact ⟨hbelow, hlow⟩
    next hbelow =>
      refine ih (by simpa using hbelow) ?_
      rwa [show p + 1 + (fuel : Int) = p + (fuel + 1 : Nat) by omega]

/-- The place at which the search for the point starts, by the difference of the numbers of bits. -/
def pointGuess (bits : Int) : Int := bits * 30103 / 100000 - 2

/-- The place at which the search starts is low enough, and at most eight places too low. -/
def GuessFits (bits : Int) : Prop :=
  2 * pow2 (-bits).toNat * tenNum (pointGuess bits - 1) ≤ pow2 bits.toNat * tenDen (pointGuess bits - 1) ∧
    2 * pow2 bits.toNat * tenDen (pointGuess bits + 8) ≤ pow2 (-bits).toNat * tenNum (pointGuess bits + 8)

instance (bits : Int) : Decidable (GuessFits bits) := inferInstanceAs (Decidable (_ ∧ _))

theorem guessFits_all : (List.range 2098).all (fun i => decide (GuessFits ((i : Int) - 1074))) = true := by decide +kernel

theorem guessFits {bits : Int} (hlow : -1074 ≤ bits) (hhigh : bits < 1024) : GuessFits bits := by
  have hfits := List.all_eq_true.1 guessFits_all (bits + 1074).toNat (List.mem_range.2 (by omega))
  rwa [decide_eq_true_eq, show ((bits + 1074).toNat : Int) - 1074 = bits by omega] at hfits

/-- The point of a quotient whose number of bits is that of a number of double precision. -/
theorem pointOf_spec {num den : Nat} (hnum : num ≠ 0) (hden : den ≠ 0) (hlow : -1074 ≤ (num.log2 : Int) - den.log2)
    (hhigh : (num.log2 : Int) - den.log2 < 1024) :
    Below num den (pointOf num den) ∧ ¬ Below num den (pointOf num den - 1) := by
  obtain ⟨bits, hbits⟩ : ∃ bits : Int, bits = (num.log2 : Int) - den.log2 := ⟨_, rfl⟩
  obtain ⟨hstart, hend⟩ : GuessFits bits := guessFits (by omega) (by omega)
  have hpoint : pointOf num den = pointFrom num den 8 (pointGuess bits) := by rw [hbits]; rfl
  have hpow : pow2 num.log2 * pow2 (-bits).toNat = pow2 den.log2 * pow2 bits.toNat := by
    have hexp : num.log2 + (-bits).toNat = den.log2 + bits.toNat := by omega
    exact (pow_add 2 _ _).symm.trans ((congrArg (2 ^ ·) hexp).trans (pow_add 2 _ _))
  have hnumLow : pow2 num.log2 ≤ num := Nat.log2_self_le hnum
  have hnumHigh : num < 2 * pow2 num.log2 := pow2_succ _ ▸ Nat.lt_log2_self
  have hdenLow : pow2 den.log2 ≤ den := Nat.log2_self_le hden
  have hdenHigh : den < 2 * pow2 den.log2 := pow2_succ _ ▸ Nat.lt_log2_self
  rw [hpoint]
  refine pointFrom_spec ?_ ?_
  · rw [Below, not_lt]
    generalize pointGuess bits - 1 = p at hstart
    refine Nat.le_of_mul_le_mul_right (c := pow2 (-bits).toNat) ?_ (Nat.two_pow_pos _)
    calc den * tenNum p * pow2 (-bits).toNat ≤ 2 * pow2 den.log2 * tenNum p * pow2 (-bits).toNat := by gcongr
      _ = pow2 den.log2 * (2 * pow2 (-bits).toNat * tenNum p) := by ring
      _ ≤ pow2 den.log2 * (pow2 bits.toNat * tenDen p) := by gcongr
      _ = pow2 num.log2 * pow2 (-bits).toNat * tenDen p := by rw [hpow]; ring
      _ ≤ num * pow2 (-bits).toNat * tenDen p := by gcongr
      _ = num * tenDen p * pow2 (-bits).toNat := by ring
  · rw [Below]
    generalize pointGuess bits + (8 : Nat) = p at hend ⊢
    have hten := tenDen_pos p
    have htwo : 0 < pow2 bits.toNat := Nat.two_pow_pos _
    refine Nat.lt_of_mul_lt_mul_right (a := pow2 bits.toNat) ?_
    calc num * tenDen p * pow2 bits.toNat < 2 * pow2 num.log2 * tenDen p * pow2 bits.toNat := by gcongr
      _ = pow2 num.log2 * (2 * pow2 bits.toNat * tenDen p) := by ring
      _ ≤ pow2 num.log2 * (pow2 (-bits).toNat * tenNum p) := by gcongr
      _ = pow2 den.log2 * pow2 bits.toNat * tenNum p := by rw [← hpow]; ring
      _ ≤ den * pow2 bits.toNat * tenNum p := by gcongr
      _ = den * tenNum p * pow2 bits.toNat := by ring

/-! ## Rounding intervals -/

namespace Interval

/-- The numerator of a fourth of the step between numbers. -/
def step (e : Int) : Nat := pow2 (e - 2).toNat

theorem ite_step (e : Int) : (if e - 2 ≥ 0 then pow2 (e - 2).toNat else 1) = step e := by
  split
  · rfl
  · rw [step, show (e - 2).toNat = 0 by omega]
    rfl

theorem value_of (m : Nat) (e : Int) : (Interval.of m e).value = 4 * m * step e := by
  rw [Interval.of, ite_step]

theorem high_of (m : Nat) (e : Int) : (Interval.of m e).high = (4 * m + 2) * step e := by
  rw [Interval.of, ite_step]

theorem den_of (m : Nat) (e : Int) : (Interval.of m e).den = pow2 (2 - e).toNat := by
  rw [Interval.of]
  dsimp only
  split
  · rw [show (2 - e).toNat = 0 by omega]
    rfl
  · rw [Int.neg_sub]

theorem low_of_wide {m : Nat} {e : Int} (h : m ≠ pow2 52) : (Interval.of m e).low = (4 * m - 2) * step e := by
  rw [Interval.of, ite_step]
  dsimp only
  rw [if_neg fun hnarrow => h hnarrow.1]

theorem low_le_value (m : Nat) (e : Int) : (Interval.of m e).low ≤ (Interval.of m e).value := by
  rw [Interval.of]
  exact Nat.mul_le_mul_right _ (Nat.sub_le _ _)

theorem den_pos (m : Nat) (e : Int) : 0 < (Interval.of m e).den := by
  rw [den_of]
  exact Nat.two_pow_pos _

variable {iv : Interval} {c num div : Nat}

theorem holds_of_lt (hlow : iv.low * div < c * num * iv.den) (hhigh : c * num * iv.den < iv.high * div) :
    iv.holds c num div = true := by
  unfold holds
  dsimp only
  split <;> simp <;> omega

theorem le_of_holds (h : iv.holds c num div = true) : c * num * iv.den ≤ iv.high * div := by
  unfold holds at h
  dsimp only at h
  split at h <;> simp at h <;> omega

end Interval

/-! ## Candidates -/

/-- The step of a grid of some digits. -/
def gridStep (iv : Interval) (point : Int) (n : Nat) : Nat := iv.den * tenNum (point - n)

/-- The value of an interval in steps of a grid, rounded down. -/
def gridFloor (iv : Interval) (point : Int) (n : Nat) : Nat := iv.value * tenDen (point - n) / gridStep iv point n

/-- What is left of the value of an interval. -/
def gridRest (iv : Interval) (point : Int) (n : Nat) : Nat := iv.value * tenDen (point - n) % gridStep iv point n

/-- A point of a grid lies in an interval. -/
def OnGrid (iv : Interval) (point : Int) (n c : Nat) : Prop :=
  iv.holds c (tenNum (point - n)) (tenDen (point - n)) = true

section Candidates

variable {iv : Interval} {point : Int} {n c : Nat}

/-- A candidate is one of the two points of the grid around a value, and lies in the interval. -/
theorem of_candidate (h : candidate iv point n = some c) :
    (c = gridFloor iv point n ∨ c = gridFloor iv point n + 1) ∧ OnGrid iv point n c := by
  unfold candidate at h
  dsimp only at h
  simp only [ite_tenNum, ite_tenDen] at h
  unfold OnGrid gridFloor gridStep
  split_ifs at h <;> cases h <;> simp_all

theorem candidate_isSome (h : OnGrid iv point n (gridFloor iv point n) ∨ OnGrid iv point n (gridFloor iv point n + 1)) :
    (candidate iv point n).isSome = true := by
  unfold candidate
  dsimp only
  simp only [ite_tenNum, ite_tenDen]
  unfold OnGrid gridFloor gridStep at h
  split_ifs <;> simp_all

theorem onGrid_of_lt (hlow : iv.low * tenDen (point - n) < gridStep iv point n * c)
    (hhigh : gridStep iv point n * c < iv.high * tenDen (point - n)) : OnGrid iv point n c := by
  have hpoint : gridStep iv point n * c = c * tenNum (point - n) * iv.den := by
    rw [gridStep]
    ring
  rw [hpoint] at hlow hhigh
  exact Interval.holds_of_lt hlow hhigh

/-- The search ends with a candidate, if there is one within reach. -/
theorem search_spec {fuel : Nat} (h : (candidate iv point (n + fuel)).isSome = true) :
    candidate iv point (search iv point (fuel + 1) n).2 = some (search iv point (fuel + 1) n).1 ∧
      n ≤ (search iv point (fuel + 1) n).2 ∧ (search iv point (fuel + 1) n).2 ≤ n + fuel := by
  induction fuel generalizing n with
  | zero =>
    obtain ⟨c, hc⟩ := Option.isSome_iff_exists.1 h
    rw [Nat.add_zero] at hc
    simp [search, hc]
  | succ fuel ih =>
    rw [search]
    cases hc : candidate iv point n with
    | some c => exact ⟨hc, le_rfl, Nat.le_add_right _ _⟩
    | none =>
      obtain ⟨hfound, hlow, hhigh⟩ := @ih (n + 1) (by rwa [show n + 1 + fuel = n + (fuel + 1) by omega])
      dsimp only
      exact ⟨hfound, by omega, by omega⟩

end Candidates

/-! ## The digits of a number -/

/-- The number `m · 2^e` is one of double precision and not zero. -/
structure InRange (m : Nat) (e : Int) : Prop where
  pos : 0 < m
  lt : m < pow2 53
  low : Binary64.minExponent ≤ e
  high : e ≤ Binary64.maxExponent

/-- The place of the point of a number. -/
def numberPoint (m : Nat) (e : Int) : Int := pointOf (Interval.of m e).value (Interval.of m e).den

/-- A fourth of the step between numbers, on a grid of some digits. -/
def gridUnit (e point : Int) (n : Nat) : Nat := Interval.step e * tenDen (point - n)

section Grid

variable (m : Nat) (e point : Int) (n : Nat)

theorem value_mul : (Interval.of m e).value * tenDen (point - n) = 4 * m * gridUnit e point n := by
  rw [Interval.value_of, gridUnit, Nat.mul_assoc]

theorem high_mul : (Interval.of m e).high * tenDen (point - n) = 4 * m * gridUnit e point n + 2 * gridUnit e point n := by
  rw [Interval.high_of, gridUnit]
  ring

theorem low_mul_le : (Interval.of m e).low * tenDen (point - n) ≤ 4 * m * gridUnit e point n :=
  value_mul m e point n ▸ Nat.mul_le_mul_right _ (Interval.low_le_value m e)

theorem gridStep_pos : 0 < gridStep (Interval.of m e) point n := Nat.mul_pos (Interval.den_pos m e) (tenNum_pos _)

theorem gridFloor_add_gridRest :
    gridStep (Interval.of m e) point n * gridFloor (Interval.of m e) point n + gridRest (Interval.of m e) point n =
      4 * m * gridUnit e point n := by
  rw [← value_mul]
  exact Nat.div_add_mod _ _

theorem gridRest_lt : gridRest (Interval.of m e) point n < gridStep (Interval.of m e) point n :=
  Nat.mod_lt _ (gridStep_pos m e point n)

variable {m e point n}

/-- The point of the grid above a number rounds to the number if it is less than half the step between numbers away. -/
theorem onGrid_succ
    (h : gridStep (Interval.of m e) point n < gridRest (Interval.of m e) point n + 2 * gridUnit e point n) :
    OnGrid (Interval.of m e) point n (gridFloor (Interval.of m e) point n + 1) := by
  have hvalue := gridFloor_add_gridRest m e point n
  have hrest := gridRest_lt m e point n
  have hlow := low_mul_le m e point n
  refine onGrid_of_lt ?_ ?_
  · rw [Nat.mul_succ]
    omega
  · rw [Nat.mul_succ, high_mul]
    omega

/-- So does the point below it, unless numbers are closer together there. -/
theorem onGrid_floor (hm : m ≠ pow2 52) (hpos : 0 < m)
    (h : gridRest (Interval.of m e) point n < 2 * gridUnit e point n) :
    OnGrid (Interval.of m e) point n (gridFloor (Interval.of m e) point n) := by
  have hvalue := gridFloor_add_gridRest m e point n
  have hlow : (Interval.of m e).low * tenDen (point - n) + 2 * gridUnit e point n = 4 * m * gridUnit e point n := by
    obtain ⟨k, hk⟩ : ∃ k, 4 * m = k + 2 := ⟨4 * m - 2, by omega⟩
    rw [Interval.low_of_wide hm, hk, Nat.add_sub_cancel, gridUnit]
    ring
  refine onGrid_of_lt ?_ ?_
  · omega
  · rw [high_mul]
    omega

end Grid

section Numbers

variable {m : Nat} {e : Int} (h : InRange m e)
include h

/-- The number of bits of the value of an interval is that of a number of double precision. -/
theorem bits_value :
    (Interval.of m e).value ≠ 0 ∧ -1074 ≤ ((Interval.of m e).value.log2 : Int) - (Interval.of m e).den.log2 ∧
      ((Interval.of m e).value.log2 : Int) - (Interval.of m e).den.log2 < 1024 := by
  obtain ⟨hpos, hlt, hlow, hhigh⟩ := h
  unfold Binary64.minExponent at hlow
  unfold Binary64.maxExponent at hhigh
  rw [Interval.value_of, Interval.den_of, Interval.step, pow2, pow2, Nat.pow_eq, Nat.pow_eq, Nat.log2_two_pow]
  have hstep : 0 < 2 ^ (e - 2).toNat := Nat.two_pow_pos _
  have hvalue : 4 * m * 2 ^ (e - 2).toNat ≠ 0 := by positivity
  have hbitsLow : 2 + (e - 2).toNat ≤ (4 * m * 2 ^ (e - 2).toNat).log2 := by
    rw [Nat.le_log2 hvalue, pow_add]
    exact Nat.mul_le_mul_right _ (by omega)
  have hbitsHigh : (4 * m * 2 ^ (e - 2).toNat).log2 < 55 + (e - 2).toNat := by
    rw [Nat.log2_lt hvalue, pow_add]
    refine Nat.mul_lt_mul_of_pos_right ?_ hstep
    have : pow2 53 = 2 ^ 53 := rfl
    omega
  exact ⟨hvalue, by omega, by omega⟩

/-- The place of the point of a number. -/
theorem point_spec :
    Below (Interval.of m e).value (Interval.of m e).den (numberPoint m e) ∧
      ¬ Below (Interval.of m e).value (Interval.of m e).den (numberPoint m e - 1) := by
  obtain ⟨hvalue, hlow, hhigh⟩ := bits_value h
  exact pointOf_spec hvalue (Interval.den_pos m e).ne' hlow hhigh

/-- In steps of a grid of some digits a number has as many digits. -/
theorem gridFloor_spec (n : Nat) :
    pow10 n ≤ gridFloor (Interval.of m e) (numberPoint m e) (n + 1) ∧
      gridFloor (Interval.of m e) (numberPoint m e) (n + 1) < pow10 (n + 1) := by
  obtain ⟨hbelow, hnot⟩ := point_spec h
  have hden : 0 < (Interval.of m e).den * tenNum (numberPoint m e - (n + 1 : Nat)) :=
    Nat.mul_pos (Interval.den_pos m e) (tenNum_pos _)
  rw [show numberPoint m e = numberPoint m e - (n + 1 : Nat) + (n + 1 : Nat) by omega, below_add_iff] at hbelow
  rw [show numberPoint m e - 1 = numberPoint m e - (n + 1 : Nat) + n by omega, below_add_iff, not_lt] at hnot
  constructor
  · rw [gridFloor, gridStep, Nat.le_div_iff_mul_le hden, Nat.mul_comm]
    exact hnot
  · rw [gridFloor, gridStep, Nat.div_lt_iff_lt_mul hden, Nat.mul_comm (pow10 (n + 1))]
    exact hbelow

/-- The grid of 17 digits is finer than the numbers are: its steps are less than four fourths, and less than two where the
numbers below are closer together. -/
theorem gridStep_lt :
    gridStep (Interval.of m e) (numberPoint m e) 17 < 4 * gridUnit e (numberPoint m e) 17 ∧
      (m = pow2 52 → gridStep (Interval.of m e) (numberPoint m e) 17 < 2 * gridUnit e (numberPoint m e) 17) := by
  obtain ⟨hgrid, -⟩ := gridFloor_spec h 16
  have hstep := gridStep_pos m e (numberPoint m e) 17
  have hvalue := gridFloor_add_gridRest m e (numberPoint m e) 17
  have hfine : gridStep (Interval.of m e) (numberPoint m e) 17 * pow10 16 ≤ 4 * m * gridUnit e (numberPoint m e) 17 :=
    (Nat.mul_le_mul_left _ hgrid).trans (hvalue ▸ Nat.le_add_right _ _)
  have hsixteen : pow10 16 = 10000000000000000 := rfl
  generalize gridStep (Interval.of m e) (numberPoint m e) 17 = step at *
  generalize gridUnit e (numberPoint m e) 17 = unit at *
  rw [hsixteen] at hfine
  constructor
  · have hm : 4 * m * unit ≤ 4 * pow2 53 * unit := Nat.mul_le_mul_right _ (Nat.mul_le_mul_left 4 h.lt.le)
    have hbits : pow2 53 = 9007199254740992 := rfl
    rw [hbits] at hm
    omega
  · intro hm
    have hbits : pow2 52 = 4503599627370496 := rfl
    rw [hm, hbits] at hfine
    omega

/-- Of the two points around a number on the grid of 17 digits, one rounds to the number. -/
theorem candidate_seventeen : (candidate (Interval.of m e) (numberPoint m e) 17).isSome = true := by
  obtain ⟨hstep, hnarrow⟩ := gridStep_lt h
  apply candidate_isSome
  by_cases hm : m = pow2 52
  · right
    have hstep := hnarrow hm
    exact onGrid_succ (by omega)
  · by_cases hrest : gridRest (Interval.of m e) (numberPoint m e) 17 < 2 * gridUnit e (numberPoint m e) 17
    · left
      exact onGrid_floor hm h.pos hrest
    · right
      exact onGrid_succ (by omega)

end Numbers

/-! ## Digits without zeros at the end -/

/-- Digits without the zeros at their end. -/
def trimmed (ds : List Char) : List Char := (ds.reverse.dropWhile (· == '0')).reverse

theorem trimmed_append (ds : List Char) : ∃ t, ds = trimmed ds ++ List.replicate t '0' := by
  refine ⟨(ds.reverse.takeWhile (· == '0')).length, ?_⟩
  have hzeros : ds.reverse.takeWhile (· == '0') = List.replicate (ds.reverse.takeWhile (· == '0')).length '0' := by
    refine List.eq_replicate_of_mem fun c hc => ?_
    simpa using List.all_eq_true.1 List.all_takeWhile c hc
  rw [trimmed, ← List.reverse_replicate, ← hzeros, ← List.reverse_append, List.takeWhile_append_dropWhile, List.reverse_reverse]

theorem trimmed_concat_zero (ds : List Char) : trimmed (ds ++ ['0']) = trimmed ds := by
  simp [trimmed]

theorem length_trimmed_le (ds : List Char) : (trimmed ds).length ≤ ds.length := by
  obtain ⟨t, ht⟩ := trimmed_append ds
  have := congrArg List.length ht
  rw [List.length_append] at this
  omega

theorem mem_of_mem_trimmed {c : Char} {ds : List Char} (h : c ∈ trimmed ds) : c ∈ ds := by
  obtain ⟨t, ht⟩ := trimmed_append ds
  rw [ht]
  exact List.mem_append_left _ h

/-- Digits that do not start with a zero start with the same digit without the zeros at their end. -/
theorem head?_trimmed {ds : List Char} (hhead : ds.head? ≠ some '0') : (trimmed ds).head? = ds.head? := by
  obtain ⟨t, ht⟩ := trimmed_append ds
  cases hds : trimmed ds with
  | nil =>
    rw [hds, List.nil_append] at ht
    cases t with
    | zero => rw [ht]; rfl
    | succ t => exact absurd (ht ▸ rfl) hhead
  | cons d ds' =>
    rw [ht, hds]
    rfl

theorem head?_toDigits_ne {c : Nat} (hc : 0 < c) : (Nat.toDigits 10 c).head? ≠ some '0' := by
  induction c using Nat.strong_induction_on with
  | _ c ih =>
    by_cases hlt : c < 10
    · rw [Nat.toDigits_of_lt_base hlt]
      simp
      omega
    · have hrest := ih (c / 10) (by omega) (by omega)
      obtain ⟨d, ds, hds⟩ := List.exists_cons_of_ne_nil (@Nat.toDigits_ne_nil (c / 10) 10)
      rw [Nat.toDigits_of_base_le (by decide) (by omega)]
      rw [hds] at hrest ⊢
      exact hrest

theorem length_trimmed_toDigits_le {c n : Nat} (hc : c ≤ pow10 (n + 1)) : (trimmed (Nat.toDigits 10 c)).length ≤ n + 1 := by
  have hlength : ∀ c', c' < pow10 (n + 1) → (Nat.toDigits 10 c').length ≤ n + 1 := by
    intro c' hc'
    exact (Nat.length_toDigits_le_iff (by decide) (by omega)).2 hc'
  rcases Nat.lt_or_eq_of_le hc with hlt | rfl
  · exact (length_trimmed_le _).trans (hlength c hlt)
  · -- the last digit of a power of ten is zero
    have hpow : pow10 (n + 1) = 10 * pow10 n := by
      rw [Nat.mul_comm]
      rfl
    have hpos := pow10_pos n
    rw [Nat.toDigits_of_base_le (by decide) (by omega), show pow10 (n + 1) % 10 = 0 by omega]
    refine (trimmed_concat_zero _).symm ▸ (length_trimmed_le _).trans (hlength _ (by omega))

/-! ## The digits of a number -/

/-- Digits as they are written: there are some, not more than 17, and the first is not zero. -/
structure Digits.Proper (d : Digits) : Prop where
  nonempty : d.digits ≠ []
  isDigit : ∀ c ∈ d.digits, c.isDigit = true
  head : d.digits.head? ≠ some '0'
  length_le : d.digits.length ≤ 17

/-- Digits as a natural number. -/
def Digits.significand (d : Digits) : Nat := Nat.ofDigitChars 10 d.digits 0

theorem trimmed_proper {c n : Nat} (hpos : 0 < c) (hc : c ≤ pow10 (n + 1)) (hn : n ≤ 16) (point : Int) :
    Digits.Proper ⟨trimmed (Nat.toDigits 10 c), point⟩ := by
  have hhead := head?_toDigits_ne hpos
  have htrimmed := head?_trimmed hhead
  constructor
  · intro (hnil : trimmed (Nat.toDigits 10 c) = [])
    rw [hnil] at htrimmed
    exact Nat.toDigits_ne_nil (List.head?_eq_none_iff.1 htrimmed.symm)
  · intro d hd
    exact @Nat.isDigit_of_mem_toDigits 10 c d (by decide) (by decide) (mem_of_mem_trimmed hd)
  · rw [htrimmed]
    exact hhead
  · exact (length_trimmed_toDigits_le hc).trans (by omega)

theorem toDigits_eq_trimmed (c : Nat) :
    ∃ t, (Nat.toDigits 10 c).length = (trimmed (Nat.toDigits 10 c)).length + t ∧
      c = pow10 t * Nat.ofDigitChars 10 (trimmed (Nat.toDigits 10 c)) 0 := by
  obtain ⟨t, ht⟩ := trimmed_append (Nat.toDigits 10 c)
  have hvalue := @Nat.ofDigitChars_ten_toDigits c
  rw [ht, Nat.ofDigitChars_append, Nat.ofDigitChars_replicate_zero] at hvalue
  refine ⟨t, ?_, hvalue.symm⟩
  have hlength := congrArg List.length ht
  rwa [List.length_append, List.length_replicate] at hlength

/-- A point of a grid in an interval, as a whole number without the zeros at its end, is not above the interval. -/
theorem mul_pow_le_of_onGrid {iv : Interval} (hden : 0 < iv.den) {point : Int} {n c t s k : Nat} (h : OnGrid iv point n c)
    (hc : c = pow10 t * s) (hk : point - n + t = k) : s * pow10 k ≤ iv.high := by
  have hten : pow10 k * tenDen (point - n) = pow10 t * tenNum (point - n) := by
    have hadd := tenNum_add (point - n) t
    rw [hk] at hadd
    simpa [tenNum, tenDen, pow10] using hadd
  have hle := Interval.le_of_holds h
  have hscaled : s * pow10 k * iv.den * tenDen (point - n) ≤ iv.high * tenDen (point - n) :=
    calc s * pow10 k * iv.den * tenDen (point - n) = s * (pow10 k * tenDen (point - n)) * iv.den := by ring
      _ = c * tenNum (point - n) * iv.den := by
        rw [hten, hc]
        ring
      _ ≤ iv.high * tenDen (point - n) := hle
  calc s * pow10 k ≤ s * pow10 k * iv.den := Nat.le_mul_of_pos_right _ hden
    _ ≤ iv.high := Nat.le_of_mul_le_mul_right hscaled (tenDen_pos _)

/-- The shortest digits of a number are proper, and the decimal is at most half way above the number, if it is whole. -/
theorem shortest_spec {m : Nat} {e : Int} (h : InRange m e) :
    (shortest m e).Proper ∧
      ∀ k : Nat, (shortest m e).point = (shortest m e).digits.length + k →
        (shortest m e).significand * pow10 k ≤ (4 * m + 2) * Interval.step e := by
  obtain ⟨hfound, hlow, hhigh⟩ := @search_spec (Interval.of m e) (numberPoint m e) 1 16 (candidate_seventeen h)
  generalize hsearch : search (Interval.of m e) (numberPoint m e) (16 + 1) 1 = found at hfound hlow hhigh
  obtain ⟨c, n⟩ := found
  dsimp only at hfound hlow hhigh
  have hshortest : shortest m e =
      ⟨trimmed (Nat.toDigits 10 c), numberPoint m e + (((Nat.toDigits 10 c).length : Int) - n)⟩ := by
    unfold shortest
    dsimp only
    rw [show search (Interval.of m e) (pointOf (Interval.of m e).value (Interval.of m e).den) 17 1 = (c, n) from hsearch]
    rfl
  obtain ⟨j, rfl⟩ : ∃ j, n = j + 1 := ⟨n - 1, by omega⟩
  obtain ⟨hc, hgrid⟩ := of_candidate hfound
  obtain ⟨hfloorLow, hfloorHigh⟩ := gridFloor_spec h j
  obtain ⟨t, hlength, hvalue⟩ := toDigits_eq_trimmed c
  have hpos : 0 < c := by
    have hten := pow10_pos j
    omega
  have hle : c ≤ pow10 (j + 1) := by omega
  rw [hshortest]
  refine ⟨trimmed_proper hpos hle (by omega) _, fun k hk => ?_⟩
  rw [← Interval.high_of]
  refine mul_pow_le_of_onGrid (Interval.den_pos m e) hgrid hvalue ?_
  dsimp only at hk
  omega

end SdkLoom.Decimal
