import DashQL.Library.Decimals

/-!
# Formatting decimals

`Decimal128.format` splits an unscaled value by a power of ten and prints the quotient
and the remainder.  The remainder is printed without the zeros in front of it, a negative
one is complemented instead of negated, and the sign is that of the quotient.
-/

namespace DashQL.Decimal128

open Decimals List Option

/-- The double that is nearest to a number, of two the one with the even significand. -/
def roundToDouble (n : ℕ) : ℕ :=
  let unit := 2 ^ (n.log2 - 52)
  let below := n / unit
  let rest := n % unit
  (if unit < 2 * rest ∨ 2 * rest = unit ∧ below % 2 = 1 then below + 1 else below) * unit

/-- `BigInt(Math.pow(10, scale))`: from 309 on the power is infinite, and the conversion throws. -/
def bigIntPow10 (scale : ℕ) : Option ℕ :=
  if scale < 309 then some (roundToDouble (10 ^ scale)) else none

/-- The fraction without its trailing zeros, behind the integer part. -/
def render (intPart : ℤ) (fractionStr : String) : String :=
  let digits := fractionStr.toList.rdropWhile (· = '0')
  if digits = [] then toString intPart
  else toString intPart ++ "." ++ String.ofList digits

def format (num : ℤ) (scale : ℕ) : Option String :=
  (bigIntPow10 scale).map fun (factor : ℕ) =>
    let intPart := num.tdiv factor
    let fractionPart := num - intPart * factor
    let fractionPart := if fractionPart < 0 then ~~~fractionPart else fractionPart
    render intPart (toString fractionPart)

/-! ## What is read -/

/-- The places that a number takes. -/
def places (n : ℕ) : ℕ := (Nat.toDigits 10 n).length

theorem lt_pow_places (n : ℕ) : n < 10 ^ places n :=
  (Nat.length_toDigits_le_iff (by decide) Nat.length_toDigits_pos).mp le_rfl

theorem places_pos (n : ℕ) : 0 < places n := Nat.length_toDigits_pos

theorem pow_places_le {n : ℕ} (hn : 0 < n) : 10 ^ (places n - 1) ≤ n := by
  by_contra hlt
  rw [not_le] at hlt
  have hpos := places_pos n
  rcases Nat.eq_zero_or_pos (places n - 1) with hone | hmore
  · rw [hone] at hlt
    omega
  · have hle := (Nat.length_toDigits_le_iff (by decide) hmore).mpr hlt
    exact absurd hle (by show ¬ places n ≤ places n - 1; omega)

/-- A number takes so many places if it lies between two powers. -/
theorem places_eq_iff {n scale : ℕ} (hn : 0 < n) (hscale : 0 < scale) :
    places n = scale ↔ 10 ^ (scale - 1) ≤ n ∧ n < 10 ^ scale := by
  constructor
  · intro heq
    rw [← heq]
    exact ⟨pow_places_le hn, lt_pow_places n⟩
  · intro h
    have hle : places n ≤ scale := (Nat.length_toDigits_le_iff (by decide) hscale).mpr h.2
    have hge : scale - 1 < places n := by
      rw [← Nat.pow_lt_pow_iff_right (by decide : 1 < 10)]
      exact lt_of_le_of_lt h.1 (lt_pow_places n)
    omega

theorem toString_nat (n : ℕ) : toString (n : ℤ) = String.ofList (Nat.toDigits 10 n) := by
  rw [Int.toString_eq_repr, Int.repr_eq_if, if_pos (Int.natCast_nonneg n), Int.toNat_natCast,
    Nat.repr_eq_ofList_toDigits]

theorem toString_neg {n : ℕ} (hn : 0 < n) :
    toString (-(n : ℤ)) = String.ofList ('-' :: Nat.toDigits 10 n) := by
  have hneg : ¬ 0 ≤ -(n : ℤ) := by omega
  rw [Int.toString_eq_repr, Int.repr_eq_if, if_neg hneg, neg_neg, Int.toNat_natCast,
    Nat.repr_eq_ofList_toDigits, ← singleton_append, String.ofList_append]

/-- The text behind the integer part. -/
def fractionText (r : ℕ) : List Char :=
  let digits := (Nat.toDigits 10 r).rdropWhile (· = '0')
  if digits = [] then [] else '.' :: digits

/-- A remainder is read over the power of ten for its own places. -/
theorem readUnsigned_fractionText (q r : ℕ) :
    readUnsigned (Nat.toDigits 10 q ++ fractionText r) = some (q + r / 10 ^ places r : ℚ) := by
  have hvalue : fractionValue ((Nat.toDigits 10 r).rdropWhile (· = '0')) = r / 10 ^ places r :=
    (fractionValue_rdropWhile _).trans (fractionValue_toDigits r)
  have hdigits : ∀ digit ∈ (Nat.toDigits 10 r).rdropWhile (· = '0'), digit.isDigit = true :=
    fun digit hdigit => isDigit_toDigits r digit ((List.rdropWhile_prefix _ _).subset hdigit)
  unfold fractionText
  dsimp only
  split_ifs with hnil
  · rw [hnil] at hvalue
    rw [append_nil, readUnsigned_whole, ← hvalue]
    simp [fractionValue]
  · rw [readUnsigned_point q hnil hdigits, hvalue]

theorem render_eq {intPart : ℤ} {text : List Char} (htext : toString intPart = String.ofList text)
    (r : ℕ) : render intPart (toString (r : ℤ)) = String.ofList (text ++ fractionText r) := by
  unfold render fractionText
  rw [htext, toString_nat, String.toList_ofList]
  dsimp only
  split_ifs
  · rw [append_nil]
  · have hpoint : "." = String.ofList ['.'] := rfl
    rw [hpoint, String.append_assoc, ← String.ofList_append, ← String.ofList_append]
    rfl

theorem readDecimal_render_nat (q r : ℕ) :
    readDecimal (render q (toString (r : ℤ))) = some (q + r / 10 ^ places r : ℚ) := by
  rw [render_eq (toString_nat q), readDecimal_unsigned, readUnsigned_fractionText]

theorem readDecimal_render_neg {q : ℕ} (hq : 0 < q) (r : ℕ) :
    readDecimal (render (-(q : ℤ)) (toString (r : ℤ))) = some (-(q + r / 10 ^ places r) : ℚ) := by
  rw [render_eq (toString_neg hq), cons_append, readDecimal_signed,
    readUnsigned_fractionText, map_some]

/-! ## What is printed -/

theorem format_nat (n scale : ℕ) : format (n : ℤ) scale = (bigIntPow10 scale).map fun (factor : ℕ) =>
    render (n / factor : ℕ) (toString ((n % factor : ℕ) : ℤ)) := by
  unfold format
  congr 1
  funext factor
  have hquotient : (n : ℤ).tdiv factor = (n / factor : ℕ) := (Int.ofNat_tdiv n factor).symm
  have hrest : (n : ℤ) - (n / factor : ℕ) * factor = (n % factor : ℕ) := by
    have hdiv := Nat.div_add_mod n factor
    have hcast : (factor : ℤ) * (n / factor : ℕ) + (n % factor : ℕ) = n := by exact_mod_cast hdiv
    linarith
  simp only [hquotient, hrest]
  rw [if_neg (by omega)]

/-- The complement of a negative remainder is one less than the remainder. -/
theorem format_neg (n scale : ℕ) : format (-(n : ℤ)) scale = (bigIntPow10 scale).map fun (factor : ℕ) =>
    render (-((n / factor : ℕ) : ℤ)) (toString ((n % factor - 1 : ℕ) : ℤ)) := by
  unfold format
  congr 1
  funext factor
  have hquotient : (-(n : ℤ)).tdiv factor = -((n / factor : ℕ) : ℤ) := by
    rw [Int.neg_tdiv, ← Int.ofNat_tdiv]
  have hrest : -(n : ℤ) - -((n / factor : ℕ) : ℤ) * factor = -((n % factor : ℕ) : ℤ) := by
    have hdiv := Nat.div_add_mod n factor
    have hcast : (factor : ℤ) * (n / factor : ℕ) + (n % factor : ℕ) = n := by exact_mod_cast hdiv
    linarith
  simp only [hquotient, hrest]
  cases hmod : n % factor with
  | zero => rw [if_neg (by omega)]; rfl
  | succ r => rw [if_pos (by omega)]; rfl

/-! ## Which powers of ten are exact -/

theorem roundToDouble_exact : ∀ scale < 23, roundToDouble (10 ^ scale) = 10 ^ scale := by
  decide +kernel

theorem roundToDouble_23 : roundToDouble (10 ^ 23) < 10 ^ 23 := by decide +kernel

theorem roundToDouble_pos : ∀ {scale}, scale < 309 → 0 < roundToDouble (10 ^ scale) := by
  decide +kernel

/-- What is used of the powers that are not exact: they are even, and near. -/
theorem roundToDouble_near : ∀ scale < 309, 22 < scale →
    roundToDouble (10 ^ scale) ≠ 10 ^ scale ∧ roundToDouble (10 ^ scale) % 2 = 0 ∧
      (roundToDouble (10 ^ scale) - 10 ^ scale) * 2 ^ 53 ≤ 10 ^ scale := by
  decide +kernel

/-- Where the power is not exact, a quotient that is not zero is wrong, whatever is printed behind
it. -/
theorem quotient_inexact {scale q p e : ℕ} (hinexact : 22 < scale) (hfinite : scale < 309)
    (hq : 0 < q) (he : e ≤ 1) (hrest : p + e < roundToDouble (10 ^ scale))
    (hbound : q * roundToDouble (10 ^ scale) + (p + e) ≤ 2 ^ 127) :
    (q * 10 ^ places p + p) * 10 ^ scale ≠
      (q * roundToDouble (10 ^ scale) + (p + e)) * 10 ^ places p := by
  obtain ⟨hne, heven, hnear⟩ := roundToDouble_near scale hfinite hinexact
  have h23 : scale = 23 → roundToDouble (10 ^ scale) < 10 ^ scale := by
    intro h
    rw [h]
    exact roundToDouble_23
  have htens : 10 ^ scale % 2 = 0 := by
    obtain ⟨m, rfl⟩ := Nat.exists_eq_succ_of_ne_zero (by omega : scale ≠ 0)
    rw [pow_succ]
    omega
  generalize roundToDouble (10 ^ scale) = factor at *
  -- without a fraction of its own, the quotient would have to make up for the factor
  have hdirect : q * 10 ^ scale ≠ q * factor + e := by
    intro heq
    interval_cases e
    · exact hne (Nat.eq_of_mul_eq_mul_left hq heq).symm
    · have hleft : q * 10 ^ scale % 2 = 0 := by rw [Nat.mul_mod, htens]; rfl
      have hright : q * factor % 2 = 0 := by rw [Nat.mul_mod, heven]; rfl
      omega
  intro heq
  rcases Nat.eq_zero_or_pos p with rfl | hp
  · have hone : places 0 = 1 := rfl
    rw [hone] at heq
    apply hdirect
    linarith
  have hlow := pow_places_le hp
  have hpos := places_pos p
  rcases lt_trichotomy (places p) scale with hlt | hsame | hgt
  · -- the fraction would have to be as long as the power is off
    obtain ⟨k, hk⟩ := Nat.exists_eq_add_of_lt hlt
    have hscale : 10 ^ scale = 100 * (10 ^ (places p - 1) * 10 ^ k) := by
      rw [← pow_add, show (100 : ℕ) = 10 ^ 2 from rfl, ← pow_add]
      congr 1
      omega
    have hplaces : 10 ^ places p = 10 * 10 ^ (places p - 1) := by
      rw [← pow_succ']
      congr 1
      omega
    have hsplit : (10 : ℕ) ^ scale = 10 ^ places p * (10 * 10 ^ k) := by
      rw [hscale, hplaces]
      ring
    have hK : 0 < 10 ^ k := by positivity
    have hcancel : (q * 10 ^ places p + p) * (10 * 10 ^ k) = q * factor + (p + e) := by
      apply Nat.eq_of_mul_eq_mul_right (by positivity : 0 < 10 ^ places p)
      rw [← heq, hsplit]
      ring
    have hlarge : 10 ^ 22 ≤ 10 ^ (places p - 1) * 10 ^ k ∨ scale = 23 := by
      by_cases h : scale = 23
      · exact .inr h
      · left
        rw [← pow_add]
        exact Nat.pow_le_pow_right (by decide) (by omega)
    generalize 10 ^ (places p - 1) = P at *
    generalize 10 ^ k = K at *
    generalize 10 ^ places p = D at *
    generalize 10 ^ scale = S at *
    subst hplaces
    have hsum : q * S + p * (10 * K) = q * factor + (p + e) := by
      rw [← hcancel, hsplit]
      ring
    have hmore : 10 * p ≤ p * (10 * K) := by nlinarith
    have hless : S < factor := by
      apply lt_of_mul_lt_mul_left _ (Nat.zero_le q)
      omega
    obtain ⟨gap, rfl⟩ := Nat.exists_eq_add_of_lt hless
    have hgap : q * (gap + 1) + (p + e) = p * (10 * K) := by
      apply Nat.add_left_cancel (n := q * S)
      rw [hsum]
      ring
    have hnear' : q * (gap + 1) * 2 ^ 53 ≤ q * S := by
      rw [Nat.mul_assoc]
      apply Nat.mul_le_mul_left
      calc (gap + 1) * 2 ^ 53 = (S + gap + 1 - S) * 2 ^ 53 := by congr 1; omega
        _ ≤ S := hnear
    have hquotient : q * S ≤ 2 ^ 127 := by
      apply le_trans _ hbound
      nlinarith
    have hfraction : 9 * (P * K) ≤ q * (gap + 1) + 1 := by
      have hmul : P * (10 * K - 1) ≤ p * (10 * K - 1) := Nat.mul_le_mul_right _ hlow
      have hpart : p * (10 * K - 1) + p = p * (10 * K) := by
        rw [← Nat.mul_succ]
        congr 1
        omega
      have hnine : P * (9 * K) ≤ P * (10 * K - 1) := Nat.mul_le_mul_left _ (by omega)
      have hassoc : 9 * (P * K) = P * (9 * K) := by ring
      omega
    rcases hlarge with hlarge | hscale23
    · omega
    · exact absurd (h23 hscale23) (by omega)
  · rw [hsame] at heq
    have hcancel := Nat.eq_of_mul_eq_mul_right (by positivity) heq
    apply hdirect
    omega
  · -- the fraction is too long, and the power too large
    obtain ⟨k, hk⟩ := Nat.exists_eq_add_of_lt hgt
    have hle : 10 ^ scale ≤ p :=
      (Nat.pow_le_pow_right (by decide) (by omega : scale ≤ places p - 1)).trans hlow
    have hless : 10 ^ scale < factor := by omega
    have hsplit : 10 ^ places p = 10 ^ (k + 1) * 10 ^ scale := by
      rw [← pow_add]
      congr 1
      omega
    rw [hsplit, ← Nat.mul_assoc (q * factor + (p + e))] at heq
    have hcancel := Nat.eq_of_mul_eq_mul_right (by positivity) heq
    have hM : 0 < 10 ^ (k + 1) := by positivity
    generalize 10 ^ (k + 1) = M at *
    have hquotient : q * 10 ^ scale * M < q * factor * M := by
      apply Nat.mul_lt_mul_of_pos_right _ hM
      exact Nat.mul_lt_mul_of_pos_left hless hq
    have hfraction : p ≤ (p + e) * M := by nlinarith
    have hleft : q * (M * 10 ^ scale) = q * 10 ^ scale * M := by ring
    rw [hleft, Nat.add_mul] at hcancel
    omega

/-! ## When the value is read -/

theorem value_iff {q p n d scale : ℕ} : (q + p / 10 ^ d : ℚ) = n / 10 ^ scale ↔
    (q * 10 ^ d + p) * 10 ^ scale = n * 10 ^ d := by
  have hd : (10 : ℚ) ^ d ≠ 0 := by positivity
  have hscale : (10 : ℚ) ^ scale ≠ 0 := by positivity
  rw [← mul_div_cancel_right₀ (q : ℚ) hd, ← add_div, div_eq_div_iff hd hscale]
  norm_cast

section Exact

variable {n scale : ℕ}

/-- With the exact power, the fraction has to take all its places. -/
theorem exact_nat_iff : (n / 10 ^ scale * 10 ^ places (n % 10 ^ scale) + n % 10 ^ scale) *
      10 ^ scale = n * 10 ^ places (n % 10 ^ scale) ↔
    10 ^ scale ∣ n ∨ 10 ^ (scale - 1) ≤ n % 10 ^ scale := by
  have hdiv := Nat.div_add_mod' n (10 ^ scale)
  have hlt : n % 10 ^ scale < 10 ^ scale := Nat.mod_lt _ (by positivity)
  have hdvd : 10 ^ scale ∣ n ↔ n % 10 ^ scale = 0 := Nat.dvd_iff_mod_eq_zero
  rw [hdvd]
  generalize n / 10 ^ scale = q at *
  generalize n % 10 ^ scale = r at *
  have hcancel : (q * 10 ^ places r + r) * 10 ^ scale = n * 10 ^ places r ↔
      r * 10 ^ scale = r * 10 ^ places r := by
    rw [← hdiv, Nat.add_mul, Nat.add_mul, Nat.mul_right_comm]
    exact Nat.add_left_cancel_iff
  rw [hcancel]
  rcases Nat.eq_zero_or_pos r with rfl | hr
  · simp
  have hscale : 0 < scale := by
    by_contra hzero
    rw [Nat.eq_zero_of_not_pos hzero, pow_zero] at hlt
    omega
  rw [Nat.mul_right_inj hr.ne', Nat.pow_right_inj (by decide), eq_comm, places_eq_iff hr hscale]
  constructor
  · intro h
    exact .inr h.1
  · intro h
    exact ⟨h.resolve_left hr.ne', hlt⟩

/-- The complement of a remainder never reads as the remainder. -/
theorem exact_neg_iff : (n / 10 ^ scale * 10 ^ places (n % 10 ^ scale - 1) +
      (n % 10 ^ scale - 1)) * 10 ^ scale = n * 10 ^ places (n % 10 ^ scale - 1) ↔
    10 ^ scale ∣ n := by
  have hdiv := Nat.div_add_mod' n (10 ^ scale)
  have hlt : n % 10 ^ scale < 10 ^ scale := Nat.mod_lt _ (by positivity)
  rw [Nat.dvd_iff_mod_eq_zero]
  generalize n / 10 ^ scale = q at *
  generalize n % 10 ^ scale = r at *
  cases r with
  | zero =>
    have hone : places 0 = 1 := rfl
    simp only [Nat.zero_sub, hone, ← hdiv]
    simp [Nat.mul_right_comm]
  | succ p =>
    have hnever : (q * 10 ^ places p + p) * 10 ^ scale ≠ n * 10 ^ places p := by
      rw [← hdiv, Nat.add_mul, Nat.add_mul, Nat.mul_right_comm]
      intro heq
      have hcancel : p * 10 ^ scale = (p + 1) * 10 ^ places p := Nat.add_left_cancel heq
      rcases Nat.eq_zero_or_pos p with rfl | hp
      · rw [Nat.zero_mul, Nat.zero_add, Nat.one_mul] at hcancel
        exact absurd hcancel (by positivity : 0 < 10 ^ places 0).ne
      have hle : places p ≤ scale := by
        have hlow := (pow_places_le hp).trans_lt (p.lt_succ_self.trans hlt)
        have hexp := (Nat.pow_lt_pow_iff_right (by decide : 1 < 10)).mp hlow
        omega
      obtain ⟨k, rfl⟩ := Nat.exists_eq_add_of_le hle
      have hfraction : p * 10 ^ k = p + 1 := by
        apply Nat.eq_of_mul_eq_mul_right (by positivity : 0 < 10 ^ places p)
        rw [← hcancel, pow_add]
        ring
      cases k with
      | zero => omega
      | succ k =>
        have hten : 10 ≤ 10 ^ (k + 1) := Nat.le_self_pow (by omega) 10
        nlinarith
    simpa using hnever

end Exact

section Inexact

variable {n scale : ℕ}

/-- Without the exact power, only a fraction that takes all its places is right. -/
theorem inexact_nat_iff (hinexact : 22 < scale) (hfinite : scale < 309) (hn : n ≤ 2 ^ 127) :
    (n / roundToDouble (10 ^ scale) * 10 ^ places (n % roundToDouble (10 ^ scale)) +
        n % roundToDouble (10 ^ scale)) * 10 ^ scale =
      n * 10 ^ places (n % roundToDouble (10 ^ scale)) ↔
    n = 0 ∨ 10 ^ (scale - 1) ≤ n ∧ n < 10 ^ scale ∧ n < roundToDouble (10 ^ scale) := by
  have hpos : 0 < roundToDouble (10 ^ scale) := roundToDouble_pos hfinite
  have hdiv := Nat.div_add_mod' n (roundToDouble (10 ^ scale))
  rcases Nat.lt_or_ge n (roundToDouble (10 ^ scale)) with hlt | hge
  · rw [Nat.div_eq_of_lt hlt, Nat.mod_eq_of_lt hlt, Nat.zero_mul, Nat.zero_add]
    rcases Nat.eq_zero_or_pos n with rfl | hn
    · simp
    rw [Nat.mul_right_inj hn.ne', Nat.pow_right_inj (by decide), eq_comm,
      places_eq_iff hn (by omega)]
    constructor
    · intro h
      exact .inr ⟨h.1, h.2, hlt⟩
    · intro h
      have hplaces := h.resolve_left hn.ne'
      exact ⟨hplaces.1, hplaces.2.1⟩
  · have hrest := Nat.mod_lt n hpos
    have hnever := quotient_inexact (p := n % roundToDouble (10 ^ scale)) (e := 0) hinexact hfinite
      (Nat.div_pos hge hpos) (by decide) hrest (hdiv.le.trans hn)
    rw [Nat.add_zero, hdiv] at hnever
    constructor
    · intro h
      exact absurd h hnever
    · intro h
      rcases h with h | h
      · omega
      · omega

theorem inexact_neg (hinexact : 22 < scale) (hfinite : scale < 309) (hn : n ≤ 2 ^ 127)
    (hge : roundToDouble (10 ^ scale) ≤ n) :
    (n / roundToDouble (10 ^ scale) * 10 ^ places (n % roundToDouble (10 ^ scale) - 1) +
        (n % roundToDouble (10 ^ scale) - 1)) * 10 ^ scale ≠
      n * 10 ^ places (n % roundToDouble (10 ^ scale) - 1) := by
  have hpos : 0 < roundToDouble (10 ^ scale) := roundToDouble_pos hfinite
  have hdiv := Nat.div_add_mod' n (roundToDouble (10 ^ scale))
  have hrest := Nat.mod_lt n hpos
  have hquotient := Nat.div_pos hge hpos
  cases hmod : n % roundToDouble (10 ^ scale) with
  | zero =>
    rw [hmod] at hdiv hrest
    have hnever := quotient_inexact (p := 0) (e := 0) hinexact hfinite hquotient (by decide) hrest
      (hdiv.le.trans hn)
    rw [Nat.add_zero, hdiv] at hnever
    exact hnever
  | succ p =>
    rw [hmod] at hdiv hrest
    have hnever := quotient_inexact (p := p) (e := 1) hinexact hfinite hquotient le_rfl hrest
      (hdiv.le.trans hn)
    rw [hdiv] at hnever
    exact hnever

end Inexact

/-- The values that are printed exactly. -/
def FormatsExactly (num : ℤ) (scale : ℕ) : Prop :=
  scale < 309 ∧ (num = 0 ∨
    scale < 23 ∧ (10 ^ scale ∣ num ∨ 0 < num ∧ 10 ^ (scale - 1) ≤ num % 10 ^ scale) ∨
    22 < scale ∧ 10 ^ (scale - 1) ≤ num ∧ num < 10 ^ scale ∧ num < roundToDouble (10 ^ scale))

end DashQL.Decimal128
