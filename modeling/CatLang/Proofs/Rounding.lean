import CatLang.Proofs.Doubles

/-! Rounding to doubles. A significand that is cut short keeps two bits that tell where the number
lies among the multiples of its last place, so the nearest multiple is found from them, the even one
of two; and no double is closer. -/
namespace CatLang.Value
open Float.Model (UnpackedFloat Format totalExponent)
open Float.Model.UnpackedFloat (Sign ExtendedMantissa Accuracy)

/-- The significand is the whole part of `y`, and its two more bits tell the fraction apart from
nothing and from a half. -/
structure Holds (em : ExtendedMantissa) (y : ℚ) : Prop where
  le : em.mantissa ≤ y
  lt : y < em.mantissa + 1
  half : em.roundBit = true ↔ em.mantissa + 1 / 2 ≤ y
  rest : em.stickyBit = true ↔ y ≠ em.mantissa ∧ y ≠ em.mantissa + 1 / 2

theorem Holds.exact_iff {em : ExtendedMantissa} {y : ℚ} (h : Holds em y) :
    (em.roundBit || em.stickyBit) = true ↔ y ≠ em.mantissa := by
  rw [Bool.or_eq_true, h.half, h.rest]
  constructor
  · rintro (hhalf | hrest) heq
    · linarith
    · exact hrest.1 heq
  · intro hne
    by_cases hhalf : y = em.mantissa + 1 / 2
    · exact .inl hhalf.ge
    · exact .inr ⟨hne, hhalf⟩

/-- Halving moves the last bit of the significand to the fraction. -/
theorem Holds.shiftRightOne {em : ExtendedMantissa} {y : ℚ} (h : Holds em y) :
    Holds em.shiftRightOne (y / 2) := by
  have hle := h.le
  have hlt := h.lt
  have hsplit : (em.mantissa : ℚ) = 2 * (em.mantissa / 2 : ℕ) + (em.mantissa % 2 : ℕ) := by
    exact_mod_cast (Nat.div_add_mod em.mantissa 2).symm
  rcases Nat.mod_two_eq_zero_or_one em.mantissa with hbit | hbit
  · rw [hbit, Nat.cast_zero, add_zero] at hsplit
    refine ⟨?_, ?_, ?_, h.exact_iff.trans ?_⟩
    all_goals simp only [ExtendedMantissa.shiftRightOne]
    · linarith
    · linarith
    · simp only [hbit, bne_self_eq_false, Bool.false_eq_true, false_iff]
      linarith
    · rw [hsplit]
      exact ⟨fun hne => ⟨fun heq => hne (by linarith), fun heq => by linarith⟩,
        fun hne heq => hne.1 (by linarith)⟩
  · rw [hbit, Nat.cast_one] at hsplit
    refine ⟨?_, ?_, ?_, h.exact_iff.trans ?_⟩
    all_goals simp only [ExtendedMantissa.shiftRightOne]
    · linarith
    · linarith
    · simp only [hbit, bne_iff_ne, ne_eq, one_ne_zero, not_false_eq_true, true_iff]
      linarith
    · rw [hsplit]
      exact ⟨fun hne => ⟨fun heq => by linarith, fun heq => hne (by linarith)⟩,
        fun hne heq => hne.2 (by linarith)⟩

theorem Holds.shiftRight {em : ExtendedMantissa} {y : ℚ} (h : Holds em y) (k : ℕ) :
    Holds (em >>> k) (y / 2 ^ k) := by
  induction k with
  | zero =>
    rw [pow_zero, div_one]
    exact h
  | succ k ih =>
    rw [pow_succ, ← div_div]
    exact ih.shiftRightOne

/-- The whole number closest to `y`, and of two the even one. -/
structure Nearest (y : ℚ) (r : ℕ) : Prop where
  close : |y - r| ≤ 1 / 2
  even : |y - r| = 1 / 2 → r % 2 = 0

theorem nearest_of_lt {y : ℚ} {r : ℕ} (hlow : (r : ℚ) - 1 / 2 < y) (hhigh : y < r + 1 / 2) :
    Nearest y r := by
  have hclose : |y - r| < 1 / 2 := abs_lt.2 ⟨by linarith, by linarith⟩
  exact ⟨hclose.le, fun heq => absurd heq hclose.ne⟩

theorem Holds.nearest {em : ExtendedMantissa} {y : ℚ} (h : Holds em y) :
    Nearest y em.roundedMantissa := by
  obtain ⟨m, round, sticky⟩ := em
  obtain ⟨hle, hlt, hhalf, hrest⟩ := h
  dsimp only at hle hlt hhalf hrest
  cases round with
  | false =>
    have hbelow : y < m + 1 / 2 := by simpa using hhalf
    have hround : ExtendedMantissa.roundedMantissa ⟨m, false, sticky⟩ = m := by cases sticky <;> rfl
    rw [hround]
    exact nearest_of_lt (by linarith) hbelow
  | true =>
    have habove : m + 1 / 2 ≤ y := hhalf.1 rfl
    cases sticky with
    | false =>
      -- Exactly halfway, the last bit decides.
      have htie : y = m + 1 / 2 := by
        by_contra hne
        have hsticky := hrest.2 ⟨by linarith, hne⟩
        cases hsticky
      show Nearest y (m + m % 2)
      rcases Nat.mod_two_eq_zero_or_one m with hbit | hbit
      · rw [hbit, add_zero, htie]
        exact ⟨by norm_num, fun _ => hbit⟩
      · rw [hbit, htie]
        exact ⟨by norm_num [abs_le], fun _ => by omega⟩
    | true =>
      have hne : y ≠ m + 1 / 2 := (hrest.1 rfl).2
      have hlarge : m + 1 / 2 < y := lt_of_le_of_ne habove hne.symm
      show Nearest y (m + 1)
      apply nearest_of_lt
      · push_cast
        linarith
      · push_cast
        linarith

theorem holds_exact (m : ℕ) : Holds (.ofMantissaAndAccuracy m .exact) m := by
  refine ⟨le_rfl, lt_add_one _, ?_, ?_⟩ <;> simp [ExtendedMantissa.ofMantissaAndAccuracy]

theorem holds_inexact (m : ℕ) {f : ℚ} (hpos : 0 < f) (hlt : f < 1) :
    Holds (.ofMantissaAndAccuracy m (.inexact (compare f (1 / 2)))) (m + f) := by
  rcases lt_trichotomy f (1 / 2) with h | h | h
  · rw [compare_lt_iff_lt.2 h]
    refine ⟨?_, ?_, ?_, ?_⟩ <;> simp [ExtendedMantissa.ofMantissaAndAccuracy]
    · exact hpos.le
    · exact hlt
    · linarith
    · exact ⟨hpos.ne', by linarith⟩
  · rw [compare_eq_iff_eq.2 h, h]
    refine ⟨?_, ?_, ?_, ?_⟩ <;> simp [ExtendedMantissa.ofMantissaAndAccuracy]
    norm_num
  · rw [compare_gt_iff_gt.2 h]
    refine ⟨?_, ?_, ?_, ?_⟩ <;> simp [ExtendedMantissa.ofMantissaAndAccuracy]
    · exact hpos.le
    · exact hlt
    · linarith
    · exact ⟨hpos.ne', by linarith⟩

theorem compare_half {a d : ℕ} (hd : 0 < d) :
    compare ((a : ℚ) / d) (1 / 2) = compare (2 * a) d := by
  have hden : (0 : ℚ) < d := Nat.cast_pos.2 hd
  rcases lt_trichotomy (2 * a) d with h | h | h
  · have hcast : (2 * a : ℚ) < d := by exact_mod_cast h
    rw [compare_lt_iff_lt.2 h, compare_lt_iff_lt, div_lt_div_iff₀ hden two_pos]
    linarith
  · have hcast : (2 * a : ℚ) = d := by exact_mod_cast h
    rw [compare_eq_iff_eq.2 h, compare_eq_iff_eq, div_eq_div_iff hden.ne' two_ne_zero]
    linarith
  · have hcast : (d : ℚ) < 2 * a := by exact_mod_cast h
    rw [compare_gt_iff_gt.2 h, compare_gt_iff_gt, div_lt_div_iff₀ two_pos hden]
    linarith

theorem holds_quotient (n : ℕ) {d : ℕ} (hd : 0 < d) :
    Holds (.ofMantissaAndAccuracy (n / d) (UnpackedFloat.accuracyOfFraction (n % d) d))
      (n / d) := by
  have hden : (0 : ℚ) < d := Nat.cast_pos.2 hd
  have hsplit : (n : ℚ) / d = (n / d : ℕ) + (n % d : ℕ) / d := by
    have hcast : (n : ℚ) = d * (n / d : ℕ) + (n % d : ℕ) := by
      exact_mod_cast (Nat.div_add_mod n d).symm
    rw [div_eq_iff hden.ne', add_mul, div_mul_cancel₀ _ hden.ne', mul_comm]
    exact hcast
  rw [hsplit]
  unfold UnpackedFloat.accuracyOfFraction
  split
  · next hzero =>
    rw [hzero, Nat.cast_zero, zero_div, add_zero]
    exact holds_exact _
  · next hne =>
    rw [← compare_half hd]
    apply holds_inexact
    · exact div_pos (Nat.cast_pos.2 (Nat.pos_of_ne_zero hne)) hden
    · rw [div_lt_one hden]
      exact Nat.cast_lt.2 (Nat.mod_lt n hd)

/-- Around `x` the doubles are the multiples of `2 ^ e`, unless too large, and `r` is the multiple
that `x` is rounded to. -/
structure Rounded (x : ℚ) (e : ℤ) (r : ℕ) : Prop where
  least : -1074 ≤ e
  low : 2 ^ 52 * 2 ^ e ≤ x
  high : x < 2 ^ 53 * 2 ^ e
  nearest : Nearest (x / 2 ^ e) r

variable {x : ℚ} {e : ℤ} {r : ℕ}

theorem Rounded.bounds (h : Rounded x e r) : 2 ^ 52 ≤ r ∧ r ≤ 2 ^ 53 := by
  have hscale : (0 : ℚ) < 2 ^ e := by positivity
  have hlow : 2 ^ 52 ≤ x / 2 ^ e := (le_div_iff₀ hscale).2 h.low
  have hhigh : x / 2 ^ e < 2 ^ 53 := (div_lt_iff₀ hscale).2 h.high
  obtain ⟨hbelow, habove⟩ := abs_le.1 h.nearest.close
  constructor
  · have hlt : (2 ^ 52 : ℚ) < r + 1 := by linarith
    have hcast : 2 ^ 52 < r + 1 := by exact_mod_cast hlt
    omega
  · have hlt : (r : ℚ) < 2 ^ 53 + 1 := by linarith
    have hcast : r < 2 ^ 53 + 1 := by exact_mod_cast hlt
    omega

/-- Rounding up may take one bit more, which then is the only one. -/
theorem Rounded.exists_normal (h : Rounded x e r) :
    ∃ m k : ℕ, Normal m (e + k) ∧ r = m * 2 ^ k ∧ (k = 0 ∨ k = 1 ∧ m = 2 ^ 52) := by
  have hleast := h.least
  obtain ⟨hfull, hroom⟩ := h.bounds
  rcases hroom.lt_or_eq with hlt | heq
  · exact ⟨r, 0, ⟨hfull, hlt, by omega⟩, by rw [pow_zero, mul_one], .inl rfl⟩
  · exact ⟨2 ^ 52, 1, ⟨le_rfl, by decide, by omega⟩, by rw [heq]; norm_num, .inr ⟨rfl, rfl⟩⟩

theorem shiftToTargetExponent_eq {m : ℕ} (hbits : 52 ≤ m.log2)
    (hleast : -1074 ≤ e + (m.log2 - 52 : ℕ)) (accuracy : Accuracy) :
    UnpackedFloat.shiftToTargetExponent .binary64 m e accuracy =
      (ExtendedMantissa.ofMantissaAndAccuracy m accuracy >>> (m.log2 - 52),
        e + (m.log2 - 52 : ℕ)) := by
  have htarget : Format.binary64.targetExponent (totalExponent m e) = e + (m.log2 - 52 : ℕ) := by
    simp only [totalExponent, Format.targetExponent, Format.mantissaBits, Format.minExponent]
    omega
  have hamount : (e + (m.log2 - 52 : ℕ) - e).toNat = m.log2 - 52 := by omega
  rw [UnpackedFloat.shiftToTargetExponent, htarget, UnpackedFloat.shiftToExponent, hamount]

theorem mantissa_ofMantissaAndAccuracy (m : ℕ) (accuracy : Accuracy) :
    (ExtendedMantissa.ofMantissaAndAccuracy m accuracy).mantissa = m := by
  rcases accuracy with _ | side
  · rfl
  · cases side <;> rfl

theorem Holds.rounded {m : ℕ} {accuracy : Accuracy} {y : ℚ}
    (h : Holds (.ofMantissaAndAccuracy m accuracy) y) (hbits : 52 ≤ m.log2)
    (hleast : -1074 ≤ e + (m.log2 - 52 : ℕ)) :
    Rounded (y * 2 ^ e) (e + (m.log2 - 52 : ℕ))
      (ExtendedMantissa.ofMantissaAndAccuracy m accuracy >>> (m.log2 - 52)).roundedMantissa := by
  have hle := h.le
  have hlt := h.lt
  rw [mantissa_ofMantissaAndAccuracy] at hle hlt
  have hscale : (0 : ℚ) < 2 ^ e := by positivity
  have hpos : m ≠ 0 := by
    rintro rfl
    rw [Nat.log2_zero] at hbits
    omega
  have hlow : (2 ^ 52 * 2 ^ (m.log2 - 52) : ℚ) ≤ m := by
    rw [← pow_add, Nat.add_sub_cancel' hbits]
    exact_mod_cast Nat.log2_self_le hpos
  have hhigh : (m + 1 : ℚ) ≤ 2 ^ 53 * 2 ^ (m.log2 - 52) := by
    rw [← pow_add, show 53 + (m.log2 - 52) = m.log2 + 1 by omega]
    exact_mod_cast Nat.succ_le_of_lt Nat.lt_log2_self
  have hsplit : (2 : ℚ) ^ (e + (m.log2 - 52 : ℕ)) = 2 ^ e * 2 ^ (m.log2 - 52) := by
    rw [zpow_add₀ two_ne_zero, zpow_natCast]
  refine ⟨hleast, ?_, ?_, ?_⟩
  · rw [hsplit]
    calc (2 : ℚ) ^ 52 * (2 ^ e * 2 ^ (m.log2 - 52)) = 2 ^ 52 * 2 ^ (m.log2 - 52) * 2 ^ e := by ring
      _ ≤ y * 2 ^ e := by
        gcongr
        exact hlow.trans hle
  · rw [hsplit]
    calc y * 2 ^ e < 2 ^ 53 * 2 ^ (m.log2 - 52) * 2 ^ e := by
          gcongr
          exact hlt.trans_le hhigh
      _ = 2 ^ 53 * (2 ^ e * 2 ^ (m.log2 - 52)) := by ring
  · have hcancel : y * 2 ^ e / 2 ^ (e + (m.log2 - 52 : ℕ)) = y / 2 ^ (m.log2 - 52) := by
      rw [hsplit, mul_comm y, mul_div_mul_left _ _ hscale.ne']
    rw [hcancel]
    exact (h.shiftRight _).nearest

theorem Normal.roundWithAccuracy_eq {m₀ m j : ℕ} {e₀ : ℤ} {accuracy : Accuracy}
    (hbits : 52 ≤ m₀.log2) (hleast : -1074 ≤ e₀ + (m₀.log2 - 52 : ℕ))
    (h : Normal m (e₀ + (m₀.log2 - 52 : ℕ) + j))
    (hr : (ExtendedMantissa.ofMantissaAndAccuracy m₀ accuracy >>>
      (m₀.log2 - 52)).roundedMantissa = m * 2 ^ j) (sign : Sign) :
    UnpackedFloat.roundWithAccuracy .binary64 sign m₀ e₀ accuracy =
      .finite sign m (e₀ + (m₀.log2 - 52 : ℕ) + j) h.pos := by
  have hagain := h.shiftToTargetExponent_scaled j
  rw [add_sub_cancel_right] at hagain
  simp only [UnpackedFloat.roundWithAccuracy, shiftToTargetExponent_eq hbits hleast, hr, hagain]
  rw [dif_neg h.pos.ne']

/-! No double is closer than the one a number is rounded to. -/

theorem Nearest.cases {y : ℚ} (h : Nearest y r) (k : ℤ) :
    |y - r| < |y - k| ∨ |y - r| = |y - k| ∧ (k = r ∨ r % 2 = 0) := by
  have hclose := h.close
  by_cases hk : k = r
  · right
    rw [hk, Int.cast_natCast]
    exact ⟨rfl, .inl rfl⟩
  have happart : (1 : ℚ) ≤ |(k : ℚ) - r| := by
    have hint : 1 ≤ |k - r| := Int.one_le_abs (sub_ne_zero.2 hk)
    exact_mod_cast hint
  have htriangle : |(k : ℚ) - r| ≤ |y - k| + |y - r| := by
    rw [abs_sub_comm y k]
    exact abs_sub_le _ _ _
  rcases hclose.lt_or_eq with hlt | heq
  · left
    linarith
  · have hle : |y - r| ≤ |y - k| := by linarith
    exact hle.lt_or_eq.imp_right fun hsame => ⟨hsame, .inr (h.even heq)⟩

/-- A double is a multiple of `2 ^ e`, or below the numbers of 53 bits with that exponent. -/
theorem exists_multiple_or_lt {v : Value} {z : ℚ} (h : v.number? = some z) (e : ℤ) :
    (∃ k : ℤ, z = k * 2 ^ e) ∨ z < 2 ^ 52 * 2 ^ e := by
  have hscale : (0 : ℚ) < 2 ^ e := by positivity
  rcases number?_eq_some_iff.1 h with ⟨sign, hv, rfl⟩ | ⟨sign, m, e', hm, hv, rfl⟩
  · exact .inl ⟨0, by rw [Int.cast_zero, zero_mul]⟩
  rcases le_or_gt e e' with he | he
  · left
    obtain ⟨i, rfl⟩ := Int.exists_add_of_le he
    have hmultiple : (m : ℚ) * 2 ^ (e + i) = (m * 2 ^ i : ℤ) * 2 ^ e := by
      rw [zpow_add₀ two_ne_zero, zpow_natCast]
      push_cast
      ring
    cases sign with
    | positive => exact ⟨m * 2 ^ i, hmultiple⟩
    | negative =>
      refine ⟨-(m * 2 ^ i), ?_⟩
      rw [signed, hmultiple, Int.cast_neg, neg_mul]
  · right
    have hbelow : (m : ℚ) * 2 ^ e' < 2 ^ 52 * 2 ^ e := by
      calc (m : ℚ) * 2 ^ e' < 2 ^ 53 * 2 ^ e' := by
            gcongr
            exact_mod_cast mantissa_lt hv
        _ = 2 ^ 52 * 2 ^ (e' + 1) := by
          rw [zpow_add_one₀ two_ne_zero]
          ring
        _ ≤ 2 ^ 52 * 2 ^ e := by
          gcongr
          · norm_num
          · omega
    cases sign with
    | positive => exact hbelow
    | negative =>
      have hpos : (0 : ℚ) < m * 2 ^ e' := by positivity
      rw [signed]
      linarith

theorem Rounded.cases (h : Rounded x e r) {w : Value} {z : ℚ} (hw : w.number? = some z) :
    |x - r * 2 ^ e| < |x - z| ∨ |x - r * 2 ^ e| = |x - z| ∧ (z = r * 2 ^ e ∨ r % 2 = 0) := by
  have hscale : (0 : ℚ) < 2 ^ e := by positivity
  have hdistance (k : ℚ) : |x - k * 2 ^ e| = |x / 2 ^ e - k| * 2 ^ e := by
    rw [← abs_of_pos hscale, ← abs_mul, abs_of_pos hscale, sub_mul, div_mul_cancel₀ _ hscale.ne']
  rcases exists_multiple_or_lt hw e with ⟨k, rfl⟩ | hlt
  · rw [hdistance, hdistance, mul_lt_mul_iff_left₀ hscale, mul_left_inj' hscale.ne']
    apply (h.nearest.cases k).imp_right
    rintro ⟨hsame, hk⟩
    refine ⟨hsame, hk.imp_left fun hk => ?_⟩
    rw [hk, Int.cast_natCast]
  · left
    have hlow := h.low
    have hgrid : |x - r * 2 ^ e| ≤ |x - 2 ^ 52 * 2 ^ e| := by
      have hle : |x / 2 ^ e - r| ≤ |x / 2 ^ e - (2 ^ 52 : ℤ)| :=
        (h.nearest.cases (2 ^ 52)).elim le_of_lt fun hsame => hsame.1.le
      rw [Int.cast_pow, Int.cast_ofNat] at hle
      rw [hdistance, hdistance]
      exact mul_le_mul_of_nonneg_right hle hscale.le
    calc |x - r * 2 ^ e| ≤ |x - 2 ^ 52 * 2 ^ e| := hgrid
      _ = x - 2 ^ 52 * 2 ^ e := abs_of_nonneg (by linarith)
      _ < x - z := by linarith
      _ ≤ |x - z| := le_abs_self _

/-- The greatest double and half a step more. What lies below is rounded to a double. -/
def limit : ℚ := (2 ^ 53 - 1 / 2) * 2 ^ (971 : ℤ)

def HasEvenSignificand (v : Value) : Prop :=
  ∀ sign m e hpos, v.parts = .finite sign m e hpos → m % 2 = 0

/-- The value that a number is rounded to: the closest double, of two the one with the even
significand, and infinity from the limit on. -/
inductive Rounds (x : ℚ) (v : Value) : Prop
  | finite (hlt : x < limit) (p : ℚ) (hv : v.number? = some p)
      (hclosest : ∀ (w : Value) (z : ℚ), w.number? = some z →
        |x - p| < |x - z| ∨ |x - p| = |x - z| ∧ (z = p ∨ v.HasEvenSignificand))
  | infinity (hle : limit ≤ x) (hv : v.parts = .infinity .positive)

theorem rounds_of_number? {v : Value} (hlt : x < limit) (h : v.number? = some x) : Rounds x v := by
  refine .finite hlt x h fun w z hw => ?_
  rw [sub_self, abs_zero]
  by_cases hz : z = x
  · right
    rw [hz, sub_self, abs_zero]
    exact ⟨rfl, .inl rfl⟩
  · left
    exact abs_pos.2 (sub_ne_zero.2 (Ne.symm hz))

theorem Normal.parts_pack_of_lt {m : ℕ} (h : Normal m e) (he : 971 < e) (sign : Sign) :
    parts (.ofModel (.pack (.finite sign m e h.pos))) = .infinity sign := by
  have hbias : (Format.binary64.exponentBias : ℤ) = 1023 := rfl
  have hpack : UnpackedFloat.pack .binary64 (.finite sign m e h.pos) =
      UnpackedFloat.packedInfinity .binary64 sign := by
    simp only [UnpackedFloat.pack]
    rw [if_pos]
    omega
  show UnpackedFloat.unpack .binary64 (UnpackedFloat.pack .binary64 (.finite sign m e h.pos)) = _
  rw [hpack]
  cases sign <;> rfl

/-- A significand is rounded up to one bit more from half a step below on. -/
theorem Nearest.lt_iff {y : ℚ} (h : Nearest y r) (hr : r ≤ 2 ^ 53) :
    y < 2 ^ 53 - 1 / 2 ↔ r < 2 ^ 53 := by
  obtain ⟨hbelow, habove⟩ := abs_le.1 h.close
  constructor
  · intro hy
    apply hr.lt_of_ne
    rintro rfl
    push_cast at hbelow
    linarith
  · intro hlt
    have hcast : (r : ℚ) + 1 ≤ 2 ^ 53 := by exact_mod_cast hlt
    by_contra hy
    -- Then `y` is halfway between the last odd significand and the next.
    have htie : |y - r| = 1 / 2 := by
      rw [abs_of_nonneg (by linarith)]
      linarith
    have hlast : (r : ℚ) + 1 = 2 ^ 53 := by linarith
    have heven := h.even htie
    have hodd : r + 1 = 2 ^ 53 := by exact_mod_cast hlast
    omega

theorem Rounded.lt_limit_iff (h : Rounded x e r) : x < limit ↔ e < 971 ∨ e = 971 ∧ r < 2 ^ 53 := by
  have hlow := h.low
  have hhigh := h.high
  have htop : (0 : ℚ) < 2 ^ (971 : ℤ) := by positivity
  unfold limit
  rcases lt_trichotomy e 971 with he | rfl | he
  · have hscale : (2 : ℚ) ^ (e + 1) ≤ 2 ^ (971 : ℤ) := zpow_le_zpow_right₀ (by norm_num) (by omega)
    rw [zpow_add_one₀ two_ne_zero] at hscale
    generalize (2 : ℚ) ^ (971 : ℤ) = top at htop hscale ⊢
    exact iff_of_true (by linarith) (.inl he)
  · rw [← div_lt_iff₀ htop, h.nearest.lt_iff h.bounds.2]
    simp
  · have hscale : (2 : ℚ) ^ ((971 : ℤ) + 1) ≤ 2 ^ e := zpow_le_zpow_right₀ (by norm_num) (by omega)
    rw [zpow_add_one₀ two_ne_zero] at hscale
    generalize (2 : ℚ) ^ (971 : ℤ) = top at htop hscale ⊢
    exact iff_of_false (by linarith) (by omega)

theorem Rounded.rounds (h : Rounded x e r) {m k : ℕ} (hnormal : Normal m (e + k))
    (hr : r = m * 2 ^ k) (hk : k = 0 ∨ k = 1 ∧ m = 2 ^ 52) :
    Rounds x (.ofModel (.pack (.finite .positive m (e + k) hnormal.pos))) := by
  have hfits : x < limit ↔ e + k ≤ 971 := by
    have hlt := hnormal.lt
    rw [h.lt_limit_iff, hr]
    rcases hk with rfl | ⟨rfl, rfl⟩
    · rw [pow_zero, mul_one, Nat.cast_zero, add_zero]
      omega
    · norm_num
  by_cases hgreatest : e + k ≤ 971
  · have hparts := hnormal.parts_pack hgreatest .positive
    have hvalue : (m : ℚ) * 2 ^ (e + k) = r * 2 ^ e := by
      rw [hr, zpow_add₀ two_ne_zero, zpow_natCast]
      push_cast
      ring
    have hnumber := number?_of_parts hparts
    rw [signed, hvalue] at hnumber
    refine .finite (hfits.2 hgreatest) _ hnumber fun w z hw => ?_
    apply (h.cases hw).imp_right
    rintro ⟨hsame, hz⟩
    refine ⟨hsame, hz.imp_right fun heven => ?_⟩
    intro sign m' e' hpos hv
    rw [hparts] at hv
    cases hv
    rcases hk with rfl | ⟨-, rfl⟩
    · rwa [hr, pow_zero, mul_one] at heven
    · decide
  · refine .infinity ?_ (hnormal.parts_pack_of_lt (by omega) .positive)
    rw [← not_lt, hfits]
    exact hgreatest

theorem Holds.rounds {m : ℕ} {accuracy : Accuracy} {y : ℚ}
    (h : Holds (.ofMantissaAndAccuracy m accuracy) y) (hbits : 52 ≤ m.log2)
    (hleast : -1074 ≤ e + (m.log2 - 52 : ℕ)) :
    Rounds (y * 2 ^ e)
      (.ofModel (.pack (.roundWithAccuracy .binary64 .positive m e accuracy))) := by
  have hrounded := h.rounded hbits hleast
  obtain ⟨m', k, hnormal, hr, hk⟩ := hrounded.exists_normal
  rw [hnormal.roundWithAccuracy_eq hbits hleast hr .positive]
  exact hrounded.rounds hnormal hr hk

theorem lt_limit_of_le (h : x ≤ 2 ^ 53) : x < limit := by
  have htop : (2 : ℚ) ^ (1 : ℤ) ≤ 2 ^ (971 : ℤ) := zpow_le_zpow_right₀ (by norm_num) (by norm_num)
  unfold limit
  rw [zpow_one] at htop
  generalize (2 : ℚ) ^ (971 : ℤ) = top at htop ⊢
  linarith

/-- A whole number becomes the double that it is rounded to. -/
theorem rounds_ofNat (n : ℕ) : Rounds n (Float.ofNat n) := by
  by_cases hn : n ≤ 2 ^ 53
  · apply rounds_of_number? _ (number?_ofNat hn)
    exact lt_limit_of_le (by exact_mod_cast hn)
  · have hpos : 0 < n := by omega
    have hlog : (n * 2 ^ 53).log2 = n.log2 + 53 := log2_scaled hpos 53
    have hrounds : Rounds ((n * 2 ^ 53 : ℕ) * 2 ^ (-53 : ℤ)) _ :=
      (holds_exact (n * 2 ^ 53)).rounds (by omega) (by omega)
    have hvalue : ((n * 2 ^ 53 : ℕ) : ℚ) * 2 ^ (-53 : ℤ) = n := by
      rw [Nat.cast_mul, Nat.cast_pow, Nat.cast_ofNat, mul_assoc, ← zpow_natCast,
        ← zpow_add₀ two_ne_zero]
      norm_num
    rw [hvalue, ← ofNat_of_le (by omega)] at hrounds
    exact hrounds

/-! Quotients. -/

theorem lt_zpow_totalExponent {m : ℕ} (e : ℤ) : (m : ℚ) * 2 ^ e < 2 ^ totalExponent m e := by
  have hlt : (m : ℚ) < 2 ^ (m.log2 + 1) := by exact_mod_cast Nat.lt_log2_self
  have hscale : (0 : ℚ) < 2 ^ e := by positivity
  unfold totalExponent
  rw [zpow_add₀ two_ne_zero]
  gcongr
  exact_mod_cast hlt

theorem zpow_totalExponent_le {m : ℕ} (hm : 0 < m) (e : ℤ) :
    2 ^ (totalExponent m e - 1) ≤ (m : ℚ) * 2 ^ e := by
  have hle : (2 : ℚ) ^ m.log2 ≤ m := by exact_mod_cast Nat.log2_self_le hm.ne'
  have hexponent : totalExponent m e - 1 = m.log2 + e := by
    unfold totalExponent
    omega
  have hscale : (0 : ℚ) < 2 ^ e := by positivity
  rw [hexponent, zpow_add₀ two_ne_zero, zpow_natCast]
  gcongr

theorem log2_le_log2_div (n : ℕ) {d : ℕ} (hd : 0 < d) : n.log2 ≤ (n / d).log2 + d.log2 + 1 := by
  rcases Nat.eq_zero_or_pos n with rfl | hn
  · rw [Nat.log2_zero]
    omega
  have hquotient : n / d + 1 ≤ 2 ^ ((n / d).log2 + 1) := Nat.lt_log2_self
  have hdivisor : d < 2 ^ (d.log2 + 1) := Nat.lt_log2_self
  apply Nat.le_of_lt_succ
  rw [Nat.log2_lt hn.ne']
  calc n < d * (n / d + 1) := Nat.lt_mul_div_succ n hd
    _ ≤ 2 ^ (d.log2 + 1) * 2 ^ ((n / d).log2 + 1) := Nat.mul_le_mul hdivisor.le hquotient
    _ = 2 ^ ((n / d).log2 + d.log2 + 1 + 1) := by
      rw [← pow_add]
      congr 1
      omega

/-- The dividend is shifted until the quotient has enough bits. -/
theorem exists_divCore (m₁ m₂ : ℕ) (e₁ e₂ : ℤ)
    (htotal : -1021 ≤ totalExponent m₁ e₁ - totalExponent m₂ e₂) : ∃ shift : ℕ,
    UnpackedFloat.divCore .binary64 m₁ e₁ m₂ e₂ = (m₁ * 2 ^ shift / m₂, e₁ - e₂ - shift,
      UnpackedFloat.accuracyOfFraction (m₁ * 2 ^ shift % m₂) m₂) ∧
    m₂.log2 + 53 ≤ m₁.log2 + shift := by
  have htarget : Format.binary64.targetExponent (totalExponent m₁ e₁ - totalExponent m₂ e₂) =
      totalExponent m₁ e₁ - totalExponent m₂ e₂ - 53 := by
    simp only [Format.targetExponent, Format.mantissaBits, Format.minExponent]
    omega
  unfold UnpackedFloat.divCore
  rw [htarget]
  unfold totalExponent
  generalize hmin : min (e₁ - e₂) (m₁.log2 + 1 + e₁ - (m₂.log2 + 1 + e₂) - 53) = target
  refine ⟨(e₁ - e₂ - target).toNat, ?_, by omega⟩
  have hexponent : target = e₁ - e₂ - (e₁ - e₂ - target).toNat := by omega
  rw [← hexponent]
  simp only [Nat.shiftLeft_eq]

theorem div_lt_zpow {m₁ m₂ : ℕ} (h₂ : 0 < m₂) (e₁ e₂ : ℤ) : (m₁ * 2 ^ e₁ : ℚ) / (m₂ * 2 ^ e₂) <
    2 ^ (totalExponent m₁ e₁ - totalExponent m₂ e₂ + 1) := by
  have hden : (0 : ℚ) < m₂ * 2 ^ e₂ := by positivity
  have hpower : (0 : ℚ) < 2 ^ (totalExponent m₁ e₁ - totalExponent m₂ e₂ + 1) := by positivity
  rw [div_lt_iff₀ hden]
  calc (m₁ * 2 ^ e₁ : ℚ) < 2 ^ totalExponent m₁ e₁ := lt_zpow_totalExponent e₁
    _ = 2 ^ (totalExponent m₁ e₁ - totalExponent m₂ e₂ + 1) * 2 ^ (totalExponent m₂ e₂ - 1) := by
      rw [← zpow_add₀ two_ne_zero]
      congr 1
      omega
    _ ≤ 2 ^ (totalExponent m₁ e₁ - totalExponent m₂ e₂ + 1) * (m₂ * 2 ^ e₂) := by
      gcongr
      exact zpow_totalExponent_le h₂ e₂

/-- The quotient of two numbers is rounded once, where it is not very small. -/
theorem rounds_div {m₁ m₂ : ℕ} {e₁ e₂ : ℤ} (h₁ : 0 < m₁) (h₂ : 0 < m₂)
    (hx : x = (m₁ * 2 ^ e₁) / (m₂ * 2 ^ e₂)) (hlow : 1 / 16 ≤ x) :
    Rounds x (.ofModel (.pack (UnpackedFloat.div .binary64 (.finite .positive m₁ e₁ h₁)
      (.finite .positive m₂ e₂ h₂)))) := by
  have htotal : -4 < totalExponent m₁ e₁ - totalExponent m₂ e₂ + 1 := by
    have hsixteenth : (2 : ℚ) ^ (-4 : ℤ) = 1 / 16 := by norm_num
    rw [← zpow_lt_zpow_iff_right₀ (one_lt_two : (1 : ℚ) < 2), hsixteenth]
    rw [hx] at hlow
    exact hlow.trans_lt (div_lt_zpow h₂ e₁ e₂)
  obtain ⟨shift, hdiv, hbits⟩ := exists_divCore m₁ m₂ e₁ e₂ (by omega)
  have hlog := log2_le_log2_div (m₁ * 2 ^ shift) h₂
  rw [log2_scaled h₁] at hlog
  unfold totalExponent at htotal
  have hleast : -1074 ≤ e₁ - e₂ - shift + ((m₁ * 2 ^ shift / m₂).log2 - 52 : ℕ) := by omega
  have hrounds := (holds_quotient (m₁ * 2 ^ shift) h₂).rounds (by omega) hleast
  have hvalue : ((m₁ * 2 ^ shift : ℕ) : ℚ) / m₂ * 2 ^ (e₁ - e₂ - shift) = x := by
    rw [hx, zpow_sub₀ two_ne_zero, zpow_sub₀ two_ne_zero, zpow_natCast]
    push_cast
    field_simp
  rw [hvalue] at hrounds
  simp only [UnpackedFloat.div, hdiv]
  exact hrounds

theorem exists_parts_of_pos {v : Value} {p : ℚ} (hv : v.number? = some p) (hp : 0 < p) :
    ∃ m e hpos, v.parts = .finite .positive m e hpos ∧ p = m * 2 ^ e := by
  rcases number?_eq_some_iff.1 hv with ⟨sign, -, rfl⟩ | ⟨sign, m, e, hm, hparts, rfl⟩
  · exact absurd hp (lt_irrefl 0)
  · cases sign with
    | positive => exact ⟨m, e, hm, hparts, rfl⟩
    | negative =>
      have hpos : (0 : ℚ) < m * 2 ^ e := by positivity
      rw [signed] at hp
      linarith

theorem rounds_div_of_number? {v w : Value} {p q : ℚ} (hv : v.number? = some p)
    (hw : w.number? = some q) (hp : 0 < p) (hq : 0 < q) (hlow : 1 / 16 ≤ p / q) :
    Rounds (p / q) (v / w) := by
  obtain ⟨m₁, e₁, h₁, hleft, rfl⟩ := exists_parts_of_pos hv hp
  obtain ⟨m₂, e₂, h₂, hright, rfl⟩ := exists_parts_of_pos hw hq
  have hdiv : v / w = .ofModel (.pack (UnpackedFloat.div .binary64 v.parts w.parts)) := rfl
  rw [hdiv, hleft, hright]
  exact rounds_div h₁ h₂ rfl hlow

/-! Decimal fractions. -/

/-- Whether a value is this positive whole number, told by its parts. -/
def isWhole (v : Value) (n : ℕ) : Bool :=
  match v.parts with
  | .finite .positive m e _ => m * 2 ^ e.toNat == n * 2 ^ (-e).toNat
  | _ => false

theorem number?_of_isWhole {v : Value} {n : ℕ} (h : v.isWhole n = true) :
    v.number? = some (n : ℚ) := by
  unfold isWhole at h
  split at h
  · next m e hpos hv =>
    rw [beq_iff_eq] at h
    have hcast : (m : ℚ) * 2 ^ e.toNat = n * 2 ^ (-e).toNat := by exact_mod_cast h
    have hscale : (2 : ℚ) ^ e = 2 ^ e.toNat / 2 ^ (-e).toNat := by
      rw [← zpow_natCast, ← zpow_natCast, ← zpow_sub₀ two_ne_zero]
      congr 1
      omega
    rw [number?_of_parts hv, signed, hscale, ← mul_div_assoc, hcast,
      mul_div_cancel_right₀ _ (by positivity)]
  · cases h

theorem isWhole_power : ∀ i : Fin Float.exactlyRepresentablePowersOfTen.size,
    isWhole Float.exactlyRepresentablePowersOfTen[i] (10 ^ i.val) = true := by
  decide +kernel

/-- The powers of ten that are doubles. -/
theorem number?_power {places : ℕ} (h : places < Float.exactlyRepresentablePowersOfTen.size) :
    number? Float.exactlyRepresentablePowersOfTen[places] = some ((10 ^ places : ℕ) : ℚ) :=
  number?_of_isWhole (isWhole_power ⟨places, h⟩)

theorem number?_toFloat {n : ℕ} (hpos : 0 < n) (hlt : n < 2 ^ 53) :
    number? n.toUInt64.toFloat = some (n : ℚ) := by
  obtain ⟨k, -, hnormal⟩ := exists_normal hpos hlt
  rw [number?_of_parts (hnormal.parts_toFloat (by omega)), signed, Nat.cast_mul, mul_assoc,
    zpow_neg, zpow_natCast, Nat.cast_pow, Nat.cast_ofNat, mul_inv_cancel₀ (by positivity), mul_one]

theorem ofScientific_neg {n places : ℕ} (hn : 0 < n) (hplaces : 0 < places)
    (hlow : 10 ^ places ≤ 16 * n) :
    UnpackedFloat.ofScientific .binary64 n (Int.negOfNat places) =
      .div .binary64 (.finite .positive n 0 hn)
        (.finite .positive (10 ^ places) 0 (by positivity)) := by
  have hlog : places < n.log2 + 5 := by
    rw [← Nat.pow_lt_pow_iff_right (a := 2) (by decide)]
    calc 2 ^ places ≤ 10 ^ places := Nat.pow_le_pow_left (by decide) _
      _ ≤ 16 * n := hlow
      _ < 16 * 2 ^ (n.log2 + 1) := Nat.mul_lt_mul_of_pos_left Nat.lt_log2_self (by decide)
      _ = 2 ^ (n.log2 + 5) := by ring
  have hbits : (2 ^ Format.binary64.exponentBits : ℤ) = 2048 := rfl
  have hplace : (-(-(places : ℤ))).toNat = places := by omega
  unfold UnpackedFloat.ofScientific
  rw [Int.negOfNat_eq, Int.ofNat_eq_natCast, dif_neg hn.ne', if_neg (by omega), if_neg (by omega),
    if_neg (by omega)]
  simp only [hplace]

/-- A decimal fraction that is not very small becomes the double that it is rounded to. -/
theorem rounds_ofScientific {n places : ℕ} (hn : 0 < n) (hplaces : 0 < places)
    (hlow : 10 ^ places ≤ 16 * n) :
    Rounds (n / (10 ^ places : ℕ)) (Float.ofScientific n true places) := by
  have hpower : (0 : ℚ) < (10 ^ places : ℕ) := by positivity
  have hnumerator : (0 : ℚ) < n := Nat.cast_pos.2 hn
  have hquotient : (1 : ℚ) / 16 ≤ n / (10 ^ places : ℕ) := by
    rw [div_le_div_iff₀ (by norm_num) hpower, one_mul, mul_comm]
    exact_mod_cast hlow
  unfold Float.ofScientific
  split
  · next hsmall =>
    rw [if_pos rfl]
    exact rounds_div_of_number? (number?_toFloat hn hsmall.1) (number?_power _) hnumerator hpower
      hquotient
  · next hlarge =>
    rw [if_pos rfl]
    show Rounds _ (.ofModel (.pack (.ofScientific .binary64 n (Int.negOfNat places))))
    rw [ofScientific_neg hn hplaces hlow]
    apply rounds_div hn _ _ hquotient
    rw [zpow_zero, mul_one, mul_one]

end CatLang.Value
