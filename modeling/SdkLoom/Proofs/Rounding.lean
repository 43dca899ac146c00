import Mathlib.Tactic.Linarith
import Mathlib.Tactic.Ring
import SdkLoom.Json.Number

/-!
# Numbers that are not too large

When a quotient is rounded to a finite number, and from which bounds on the significand and the exponent of a decimal it
follows that the decimal is read as one, though it is rounded three times on the way (`Json.Literal.scale_eq_ok`).
-/

namespace SdkLoom

theorem pow2_succ (n : Nat) : pow2 (n + 1) = 2 * pow2 n := (Nat.pow_succ ..).trans (Nat.mul_comm ..)

theorem pow2_add (m n : Nat) : pow2 (m + n) = pow2 m * pow2 n := Nat.pow_add 2 m n

theorem pow2_le {m n : Nat} (h : m ≤ n) : pow2 m ≤ pow2 n := Nat.pow_le_pow_right (by decide) h

theorem pow10_le {m n : Nat} (h : m ≤ n) : pow10 m ≤ pow10 n := Nat.pow_le_pow_right (by decide) h

theorem pow10_pos (n : Nat) : 0 < pow10 n := Nat.pow_pos (by decide)

namespace Binary64

/-! ## Rounding quotients -/

/-- A quotient less than half way above a number is not rounded above it. -/
theorem roundDiv_le {num den n : Nat} (h : 2 * num < (2 * n + 1) * den) : roundDiv num den ≤ n := by
  have hden : 0 < den := Nat.pos_of_ne_zero fun hzero => by simp [hzero] at h
  have hdiv := Nat.div_add_mod num den
  unfold roundDiv
  generalize num / den = q at *
  generalize num % den = r at *
  have hq : q ≤ n := by
    by_contra hlt
    have hmul : den * (n + 1) ≤ den * q := Nat.mul_le_mul_left den (by omega)
    nlinarith
  rcases Nat.lt_or_eq_of_le hq with hlt | rfl
  · dsimp only
    split_ifs <;> omega
  · have hr : 2 * r < den := by nlinarith
    exact le_of_eq (if_pos hr)

/-- A quotient is rounded up by one half at most. -/
theorem two_mul_roundDiv_le (num den : Nat) : 2 * (roundDiv num den * den) ≤ 2 * num + den := by
  have hdiv := Nat.div_add_mod num den
  unfold roundDiv
  generalize num / den = q at *
  generalize num % den = r at *
  dsimp only
  split_ifs <;> nlinarith

theorem roundDiv_one (n : Nat) : roundDiv n 1 = n := by
  rw [roundDiv, Nat.mod_one, Nat.div_one]
  rfl

/-- The exponent leaves at least 52 bits before the point, unless it is the least one. -/
theorem mul_pow_le_of_exponentOf {num den e : Nat} (hnum : num ≠ 0) (he : exponentOf num den = e) :
    pow2 52 * (den * pow2 e) ≤ num := by
  have hlow : 2 ^ num.log2 ≤ num := Nat.log2_self_le hnum
  have hhigh : den < 2 ^ (den.log2 + 1) := Nat.lt_log2_self
  unfold exponentOf at he
  generalize hguess : (num.log2 : Int) - (den.log2 : Int) - 52 = guess at he
  dsimp only at he
  generalize hlarge : (if guess ≥ 0 then decide (num ≥ pow2 52 * (den * pow2 guess.toNat))
    else decide (num * pow2 (-guess).toNat ≥ pow2 52 * den)) = large at he
  have hmin : minExponent < (e : Int) := by
    unfold minExponent
    omega
  cases large with
  | true =>
    rw [if_pos rfl] at he
    obtain rfl : guess = e := by omega
    rw [if_pos (Int.natCast_nonneg e), decide_eq_true_eq] at hlarge
    exact hlarge
  | false =>
    rw [if_neg Bool.false_ne_true] at he
    have hlog : num.log2 = 52 + (den.log2 + 1 + e) := by omega
    calc 2 ^ 52 * (den * 2 ^ e) ≤ 2 ^ 52 * (2 ^ (den.log2 + 1) * 2 ^ e) := by gcongr
      _ = 2 ^ num.log2 := by rw [hlog, pow_add 2 52, pow_add 2 (den.log2 + 1)]
      _ ≤ num := hlow

theorem pack_of_ne {m : Nat} (hm : m ≠ pow2 53) (negative : Bool) (e : Int) :
    pack negative m e = if e > maxExponent then .infinite negative else .finite negative m e := by
  rw [pack, if_neg hm]

theorem pack_carry (negative : Bool) (e : Int) :
    pack negative (pow2 53) e = if e + 1 > maxExponent then .infinite negative else .finite negative (pow2 52) (e + 1) := by
  rw [pack, if_pos rfl]

theorem isFinite_pack {negative : Bool} {m : Nat} {e : Int} (he : e ≤ maxExponent) (hm : m = pow2 53 → e < maxExponent) :
    (pack negative m e).isFinite = true := by
  by_cases hcarry : m = pow2 53
  · have hlt := hm hcarry
    rw [hcarry, pack_carry, if_neg (by omega)]
    rfl
  · rw [pack_of_ne hcarry, if_neg (by omega)]
    rfl

/-- The least quotient that is rounded to an infinity: half way above the greatest number. -/
def overflow : Nat := (2 ^ 54 - 1) * 2 ^ 970

theorem two_mul_overflow : 2 * overflow = (2 * (2 ^ 53 - 1) + 1) * pow2 971 := by decide +kernel

theorem overflow_le : overflow ≤ pow2 52 * pow2 972 := by decide +kernel

theorem exponentOf_le {num den : Nat} (hnum : num ≠ 0) (h : num < overflow * den) : exponentOf num den ≤ maxExponent := by
  by_contra hlt
  obtain ⟨e, he⟩ : ∃ e : Nat, exponentOf num den = e := ⟨_, (Int.toNat_of_nonneg (by unfold maxExponent at hlt; omega)).symm⟩
  have hpow : pow2 972 ≤ pow2 e := pow2_le (by unfold maxExponent at hlt; omega)
  have hle : overflow * den ≤ num :=
    calc overflow * den ≤ pow2 52 * pow2 972 * den := Nat.mul_le_mul_right den overflow_le
      _ = pow2 52 * (den * pow2 972) := by ring
      _ ≤ pow2 52 * (den * pow2 e) := by gcongr
      _ ≤ num := mul_pow_le_of_exponentOf hnum he
  omega

theorem ofRatio_of_nonneg {num den e : Nat} (hnum : num ≠ 0) (he : exponentOf num den = e) (negative : Bool) :
    ofRatio negative num den = pack negative (roundDiv num (den * pow2 e)) e := by
  rw [ofRatio, if_neg hnum, he]
  rfl

theorem ofRatio_of_neg {num den j : Nat} (hnum : num ≠ 0) (he : exponentOf num den = Int.negSucc j) (negative : Bool) :
    ofRatio negative num den = pack negative (roundDiv (num * pow2 (j + 1)) den) (Int.negSucc j) := by
  rw [ofRatio, if_neg hnum, he]
  rfl

theorem isFinite_ofRatio (negative : Bool) {num den : Nat} (h : num < overflow * den) :
    (ofRatio negative num den).isFinite = true := by
  by_cases hnum : num = 0
  · rw [ofRatio, if_pos hnum]
    rfl
  have hround : roundDiv num (den * pow2 971) ≤ 2 ^ 53 - 1 := by
    refine roundDiv_le ?_
    calc 2 * num < 2 * overflow * den := by nlinarith
      _ = (2 * (2 ^ 53 - 1) + 1) * (den * pow2 971) := by rw [two_mul_overflow]; ring
  rw [ofRatio, if_neg hnum]
  refine isFinite_pack (exponentOf_le hnum h) fun hm => lt_of_le_of_ne (exponentOf_le hnum h) fun he => ?_
  rw [he, if_pos (by decide), show maxExponent.toNat = 971 from rfl] at hm
  rw [hm] at hround
  exact absurd hround (by decide)

/-! ## Rounding natural numbers -/

theorem exponentOf_one {n : Nat} (hn : n ≠ 0) : exponentOf n 1 = (n.log2 : Int) - 52 := by
  have hlow : 2 ^ n.log2 ≤ n := Nat.log2_self_le hn
  have hlarge : ∀ guess : Int, guess = (n.log2 : Int) - 52 →
      (if guess ≥ 0 then decide (n ≥ pow2 52 * (1 * pow2 guess.toNat))
        else decide (n * pow2 (-guess).toNat ≥ pow2 52 * 1)) = true := by
    rintro guess hguess
    split
    next hpos =>
      have hlog : n.log2 = 52 + guess.toNat := by omega
      rw [decide_eq_true_eq, Nat.one_mul]
      calc pow2 52 * pow2 guess.toNat = pow2 n.log2 := by rw [hlog, pow2_add]
        _ ≤ n := hlow
    next hneg =>
      have hlog : 52 = n.log2 + (-guess).toNat := by omega
      rw [decide_eq_true_eq, Nat.mul_one]
      calc pow2 52 = pow2 n.log2 * pow2 (-guess).toNat := by rw [hlog, pow2_add]
        _ ≤ n * pow2 (-guess).toNat := Nat.mul_le_mul_right _ hlow
  rw [exponentOf, show Nat.log2 1 = 0 from rfl, if_pos (hlarge _ (by simp))]
  unfold minExponent
  omega

/-- The natural number that one is rounded to. -/
def rounded (n : Nat) : Nat := roundDiv n (pow2 (n.log2 - 52)) * pow2 (n.log2 - 52)

/-- A carry does not change the number that is packed. -/
theorem exists_of_isFinite_pack {negative : Bool} {m e : Nat} (h : (pack negative m e).isFinite = true) :
    ∃ m' e', pack negative m e = .finite negative m' e' ∧ ratio m' e' = (m * pow2 e, 1) := by
  by_cases hm : m = pow2 53
  · subst hm
    rw [pack_carry] at h ⊢
    split at h
    next => cases h
    next hle =>
      refine ⟨pow2 52, e + 1, if_neg hle, ?_⟩
      have hpow : pow2 52 * pow2 (e + 1) = pow2 53 * pow2 e := by
        rw [pow2_succ e, pow2_succ 52]
        ring
      rw [ratio, if_pos (by omega), ← hpow]
      rfl
  · rw [pack_of_ne hm] at h ⊢
    split at h
    next => cases h
    next hle => exact ⟨m, e, if_neg hle, if_pos (Int.natCast_nonneg e)⟩

/-- A natural number that is not too large is rounded to a finite number with this value. -/
theorem ofNat_eq {n : Nat} (hn : n < overflow) :
    ∃ m e, ofNat n = .finite false m e ∧ (ratio m e).1 = rounded n * (ratio m e).2 := by
  by_cases hzero : n = 0
  · subst hzero
    refine ⟨0, minExponent, rfl, ?_⟩
    rw [show rounded 0 = 0 from rfl, Nat.zero_mul, ratio, if_neg (by decide)]
  have hfinite : (ofNat n).isFinite = true := isFinite_ofRatio false (by omega)
  have hexponent := exponentOf_one hzero
  rw [ofNat] at hfinite ⊢
  unfold rounded
  by_cases hlog : 52 ≤ n.log2
  · obtain ⟨e, he⟩ : ∃ e, n.log2 = 52 + e := ⟨n.log2 - 52, by omega⟩
    rw [ofRatio_of_nonneg hzero (show exponentOf n 1 = (e : Int) by omega), Nat.one_mul] at hfinite ⊢
    obtain ⟨m', e', hpack, hratio⟩ := exists_of_isFinite_pack hfinite
    refine ⟨m', e', hpack, ?_⟩
    rw [hratio, show n.log2 - 52 = e by omega, Nat.mul_one]
  · -- the number has fewer bits than a mantissa, so it is not rounded at all
    obtain ⟨j, hj⟩ : ∃ j, 52 = n.log2 + (j + 1) := ⟨51 - n.log2, by omega⟩
    have hbits : n * pow2 (j + 1) ≠ pow2 53 := by
      have hhigh : n < 2 ^ (n.log2 + 1) := Nat.lt_log2_self
      have hpow : pow2 (n.log2 + 1) * pow2 (j + 1) = pow2 53 := by
        rw [← pow2_add, show n.log2 + 1 + (j + 1) = 53 by omega]
      rw [← hpow]
      exact Nat.ne_of_lt (Nat.mul_lt_mul_of_pos_right hhigh (Nat.two_pow_pos _))
    rw [ofRatio_of_neg hzero (show exponentOf n 1 = Int.negSucc j by omega), roundDiv_one, pack_of_ne hbits,
      if_neg (by unfold maxExponent; omega), show n.log2 - 52 = 0 by omega, show pow2 0 = 1 from rfl, roundDiv_one,
      Nat.mul_one]
    exact ⟨_, _, rfl, rfl⟩

/-- A natural number is not rounded above a greater one in which the bits that do not fit into a mantissa are zero. -/
theorem rounded_le {n bound : Nat} (hn : n ≤ bound) (hbound : pow2 (bound.log2 - 52) ∣ bound) : rounded n ≤ bound := by
  have hdvd : pow2 (n.log2 - 52) ∣ bound := by
    by_cases hzero : n = 0
    · subst hzero
      exact Nat.one_dvd _
    have hle : n.log2 ≤ bound.log2 := (Nat.le_log2 (by omega)).2 ((Nat.log2_self_le hzero).trans hn)
    exact (Nat.pow_dvd_pow 2 (by omega)).trans hbound
  obtain ⟨q, rfl⟩ := hdvd
  have hround : roundDiv n (pow2 (n.log2 - 52)) ≤ q := by
    have hpos : 0 < pow2 (n.log2 - 52) := Nat.two_pow_pos _
    refine roundDiv_le ?_
    nlinarith
  rw [Nat.mul_comm]
  exact Nat.mul_le_mul_right _ hround

theorem ratio_den_pos (m : Nat) (e : Int) : 0 < (ratio m e).2 := by
  unfold ratio
  split
  · exact Nat.one_pos
  · exact Nat.two_pow_pos _

/-- A natural number is rounded up by one in `2^53` at most. -/
theorem rounded_mul_le (n : Nat) : rounded n * pow2 53 ≤ n * (pow2 53 + 1) := by
  unfold rounded
  by_cases hlog : n.log2 ≤ 52
  · rw [show n.log2 - 52 = 0 by omega, show pow2 0 = 1 from rfl, roundDiv_one]
    nlinarith
  · have hbits : pow2 (n.log2 - 52) * pow2 52 ≤ n := by
      calc pow2 (n.log2 - 52) * pow2 52 = pow2 n.log2 := by rw [← pow2_add, Nat.sub_add_cancel (by omega)]
        _ ≤ n := Nat.log2_self_le (by rintro rfl; exact hlog (by decide))
    have hround := two_mul_roundDiv_le n (pow2 (n.log2 - 52))
    rw [pow2_succ 52]
    nlinarith

theorem isFinite_mul {m n : Nat} (h : rounded m * rounded n < overflow) (hm : m < overflow) (hn : n < overflow) :
    ((ofNat m).mul (ofNat n)).isFinite = true := by
  obtain ⟨a, e, hx, hxvalue⟩ := ofNat_eq hm
  obtain ⟨b, f, hy, hyvalue⟩ := ofNat_eq hn
  have hxden := ratio_den_pos a e
  have hyden := ratio_den_pos b f
  rw [hx, hy]
  refine isFinite_ofRatio _ ?_
  calc (ratio a e).1 * (ratio b f).1 = rounded m * rounded n * ((ratio a e).2 * (ratio b f).2) := by
        rw [hxvalue, hyvalue]
        ring
    _ < overflow * ((ratio a e).2 * (ratio b f).2) := Nat.mul_lt_mul_of_pos_right h (Nat.mul_pos hxden hyden)

end Binary64

namespace Json.Literal

open Binary64

/-! ## Scaling significands -/

/-- Half way above the greatest number but one. -/
def nearOverflow : Nat := (2 ^ 55 - 6) * 2 ^ 969

theorem nearOverflow_lt : nearOverflow < pow10 309 := by decide +kernel

/-- A bound on the significands of 17 digits that stand for no more than `nearOverflow` with an exponent. -/
def significandBound (k : Nat) : Nat := min (pow10 17) (nearOverflow / pow10 k)

theorem significandBound_mul_le (k : Nat) : significandBound k * pow10 k ≤ nearOverflow :=
  (Nat.le_div_iff_mul_le (pow10_pos k)).1 (min_le_right _ _)

/-- The bounds are not rounded. -/
theorem significandBound_fits : ∀ k ≤ maxPower, pow2 ((significandBound k).log2 - 52) ∣ significandBound k := by
  decide +kernel

/-- One rounding up is not enough to get from `nearOverflow` to an infinity. -/
theorem nearOverflow_mul_lt : nearOverflow * (pow2 53 + 1) < overflow * pow2 53 := by decide +kernel

/-- The significand is rounded, and so is the power of ten, before their product is. -/
theorem isFinite_mul_power {s k : Nat} (hk : k ≤ maxPower) (hs : s ≤ significandBound k) :
    ((Binary64.ofNat s).mul (power k)).isFinite = true := by
  have hrounded : rounded s ≤ significandBound k := rounded_le hs (significandBound_fits k hk)
  have hproduct : rounded s * rounded (pow10 k) * pow2 53 < overflow * pow2 53 :=
    calc rounded s * rounded (pow10 k) * pow2 53 = rounded s * (rounded (pow10 k) * pow2 53) := by ring
      _ ≤ significandBound k * (pow10 k * (pow2 53 + 1)) := Nat.mul_le_mul hrounded (rounded_mul_le _)
      _ = significandBound k * pow10 k * (pow2 53 + 1) := by ring
      _ ≤ nearOverflow * (pow2 53 + 1) := Nat.mul_le_mul_right _ (significandBound_mul_le k)
      _ < overflow * pow2 53 := nearOverflow_mul_lt
  have hpower : pow10 k < overflow := lt_of_le_of_lt (pow10_le hk) (by decide +kernel)
  have hbound : significandBound k < overflow := lt_of_le_of_lt (min_le_left _ _) (by decide +kernel)
  exact isFinite_mul (Nat.lt_of_mul_lt_mul_right hproduct) (lt_of_le_of_lt hs hbound) hpower

/-- A decimal of at most 17 digits that is not too large is read as a number. -/
theorem scale_eq_ok {s k : Nat} (hpos : 0 < s) (hdigits : s ≤ pow10 17) (hvalue : s * pow10 k ≤ nearOverflow) :
    ∃ x, scale s k = .ok x := by
  have hk : k ≤ maxPower := by
    by_contra hlt
    have hpow : pow10 309 ≤ pow10 k := pow10_le (by unfold maxPower at hlt; omega)
    have hmul : 1 * pow10 k ≤ s * pow10 k := Nat.mul_le_mul_right _ hpos
    have hnear := nearOverflow_lt
    omega
  have hs : s ≤ significandBound k := le_min hdigits ((Nat.le_div_iff_mul_le (pow10_pos k)).2 hvalue)
  refine ⟨(Binary64.ofNat s).mul (power k), ?_⟩
  rw [scale, if_neg (by omega), if_pos (by omega), Int.toNat_natCast]
  exact if_pos (isFinite_mul_power hk hs)

end Json.Literal

end SdkLoom
