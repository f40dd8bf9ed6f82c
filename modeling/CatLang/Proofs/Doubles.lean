import CatLang.Proofs.Value

/-! Doubles as the numbers they stand for. Doubles that stand for numbers are ordered as those
numbers are, a whole number of at most 53 bits followed by zeros becomes a double without being
rounded, and the whole part of a count is the number of rounds that its loop runs. -/
namespace CatLang.Value
open Float.Model (UnpackedFloat Format totalExponent)
open Float.Model.UnpackedFloat (Sign ExtendedMantissa Accuracy)

/-- A number with a sign put before it. -/
def signed : Sign → ℚ → ℚ
  | .positive, q => q
  | .negative, q => -q

/-- The number that a value stands for. Infinities and what is no number stand for none. -/
def number? (v : Value) : Option ℚ :=
  match v.parts with
  | .notANumber => none
  | .infinity _ => none
  | .zero _ => some 0
  | .finite sign mantissa exponent _ => some (signed sign (mantissa * 2 ^ exponent))

/-- The parts of a finite double: the significand takes all of its 53 bits, unless the exponent is
as small as it can be. -/
structure Canonical (mantissa : ℕ) (exponent : ℤ) : Prop where
  lt : mantissa < 2 ^ 53
  least : -1074 ≤ exponent
  full : -1074 < exponent → 2 ^ 52 ≤ mantissa

theorem toNat_one_append {n : ℕ} (bits : BitVec n) : (1#1 ++ bits).toNat = 2 ^ n + bits.toNat := by
  rw [BitVec.toNat_append, ← Nat.shiftLeft_add_eq_or_of_lt bits.isLt, Nat.shiftLeft_eq]
  simp

theorem canonical_of_parts {v : Value} {sign : Sign} {mantissa : ℕ} {exponent : ℤ}
    {hpos : 0 < mantissa} (h : v.parts = .finite sign mantissa exponent hpos) :
    Canonical mantissa exponent := by
  have hbias : (Format.binary64.exponentBias : ℤ) = 1023 := rfl
  have hlt := mantissa_lt h
  unfold parts Float.Model.unpack UnpackedFloat.unpack at h
  dsimp only at h
  generalize @UnpackedFloat.unpackExponent .binary64 v.toModel.toBits.toBitVec = bits at h
  split at h
  · split at h <;> cases h
  split at h
  · next hzero =>
    split at h
    · cases h
    · cases h
      rw [hzero]
      exact ⟨hlt, by decide, fun h => absurd h (by decide)⟩
  · next hnonzero =>
    cases h
    have hmin : bits.toNat ≠ 0 := fun h => hnonzero (BitVec.eq_of_toNat_eq h)
    rw [hbias]
    refine ⟨hlt, by omega, fun _ => ?_⟩
    rw [toNat_one_append]
    exact Nat.le_add_right _ _

/-! Doubles are compared as numbers. -/

theorem Canonical.lt_of_exponent_lt {m m' : ℕ} {e e' : ℤ} (h : Canonical m e)
    (h' : Canonical m' e') (he : e < e') : (m : ℚ) * 2 ^ e < m' * 2 ^ e' := by
  have hm : (m : ℚ) < 2 ^ 53 := mod_cast h.lt
  have hm' : (2 : ℚ) ^ 52 ≤ m' := mod_cast h'.full (lt_of_le_of_lt h.least he)
  calc (m : ℚ) * 2 ^ e < 2 ^ 53 * 2 ^ e := by gcongr
    _ = 2 ^ 52 * 2 ^ (e + 1) := by
      rw [zpow_add_one₀ (by norm_num)]
      ring
    _ ≤ m' * 2 ^ e' := by
      gcongr
      · norm_num
      · omega

/-- Exponents come first, and among equal exponents the significands decide. -/
theorem Canonical.compare_eq {m m' : ℕ} {e e' : ℤ} (h : Canonical m e) (h' : Canonical m' e') :
    (compare e e').then (compare m m') = compare ((m : ℚ) * 2 ^ e) (m' * 2 ^ e') := by
  rcases lt_trichotomy e e' with he | rfl | he
  · rw [compare_lt_iff_lt.2 he, compare_lt_iff_lt.2 (h.lt_of_exponent_lt h' he)]
    rfl
  · have hscale : (0 : ℚ) < 2 ^ e := by positivity
    have hmono : StrictMono fun n : ℕ => (n : ℚ) * 2 ^ e := fun a b hab =>
      mul_lt_mul_of_pos_right (Nat.cast_lt.2 hab) hscale
    rw [compare_eq_iff_eq.2 rfl]
    rcases lt_trichotomy m m' with hm | rfl | hm
    · rw [compare_lt_iff_lt.2 hm, compare_lt_iff_lt.2 (hmono hm)]
      rfl
    · rw [compare_eq_iff_eq.2 rfl, compare_eq_iff_eq.2 rfl]
      rfl
    · rw [compare_gt_iff_gt.2 hm, compare_gt_iff_gt.2 (hmono hm)]
      rfl
  · rw [compare_gt_iff_gt.2 he, compare_gt_iff_gt.2 (h'.lt_of_exponent_lt h he)]
    rfl

/-- A value that stands for a number is zero or finite. -/
theorem number?_eq_some_iff {v : Value} {q : ℚ} : v.number? = some q ↔
    (∃ sign, v.parts = .zero sign ∧ q = 0) ∨
      ∃ sign mantissa exponent hpos, v.parts = .finite sign mantissa exponent hpos ∧
        q = signed sign (mantissa * 2 ^ exponent) := by
  unfold number?
  cases h : v.parts with
  | notANumber => simp
  | infinity sign => simp
  | zero sign => simp [eq_comm]
  | finite sign mantissa exponent hpos => simp [eq_comm, hpos]

theorem swap_compare_neg (p q : ℚ) : (compare p q).swap = compare (-p) (-q) := by
  rcases lt_trichotomy p q with h | rfl | h
  · rw [compare_lt_iff_lt.2 h, compare_gt_iff_gt.2 (neg_lt_neg h)]
    rfl
  · rw [compare_eq_iff_eq.2 rfl, compare_eq_iff_eq.2 rfl]
    rfl
  · rw [compare_gt_iff_gt.2 h, compare_lt_iff_lt.2 (neg_lt_neg h)]
    rfl

theorem compare_parts {v w : Value} {p q : ℚ} (hv : v.number? = some p) (hw : w.number? = some q) :
    v.parts.compare w.parts = some (compare p q) := by
  have hscaled {m : ℕ} (e : ℤ) (hm : 0 < m) : (0 : ℚ) < m * 2 ^ e := by positivity
  rcases number?_eq_some_iff.1 hv with ⟨s, hpv, rfl⟩ | ⟨s, m, e, hm, hpv, rfl⟩
  · rcases number?_eq_some_iff.1 hw with ⟨s', hpw, rfl⟩ | ⟨s', m', e', hm', hpw, rfl⟩
    · rw [hpv, hpw]
      rfl
    · rw [hpv, hpw]
      cases s' with
      | positive => exact congrArg some (compare_lt_iff_lt.2 (hscaled e' hm')).symm
      | negative => exact congrArg some (compare_gt_iff_gt.2 (neg_lt_zero.2 (hscaled e' hm'))).symm
  · rcases number?_eq_some_iff.1 hw with ⟨s', hpw, rfl⟩ | ⟨s', m', e', hm', hpw, rfl⟩
    · rw [hpv, hpw]
      cases s with
      | positive => exact congrArg some (compare_gt_iff_gt.2 (hscaled e hm)).symm
      | negative => exact congrArg some (compare_lt_iff_lt.2 (neg_lt_zero.2 (hscaled e hm))).symm
    · have hcompare := (canonical_of_parts hpv).compare_eq (canonical_of_parts hpw)
      rw [hpv, hpw]
      cases s <;> cases s'
      · exact congrArg some ((congrArg Ordering.swap hcompare).trans (swap_compare_neg _ _))
      · have hlt := neg_lt_zero.2 (hscaled e hm)
        exact congrArg some (compare_lt_iff_lt.2 (hlt.trans (hscaled e' hm'))).symm
      · have hlt := neg_lt_zero.2 (hscaled e' hm')
        exact congrArg some (compare_gt_iff_gt.2 (hlt.trans (hscaled e hm))).symm
      · exact congrArg some hcompare

theorem le_iff_of_number? {v w : Value} {p q : ℚ} (hv : v.number? = some p)
    (hw : w.number? = some q) : v ≤ w ↔ p ≤ q := by
  rw [le_iff_parts, UnpackedFloat.le, compare_parts hv hw, Option.any_some,
    Ordering.isLE_iff_ne_gt, compare_gt_iff_gt, not_lt]

theorem lt_iff_parts {v w : Value} : v < w ↔ v.parts.compare w.parts = some .lt := by
  show decide (v.toModel < w.toModel) = true ↔ _
  rw [decide_eq_true_iff]
  exact beq_iff_eq

theorem lt_iff_of_number? {v w : Value} {p q : ℚ} (hv : v.number? = some p)
    (hw : w.number? = some q) : v < w ↔ p < q := by
  rw [lt_iff_parts, compare_parts hv hw, Option.some_inj, compare_lt_iff_lt]

theorem compare_swap (a b : UnpackedFloat) : b.compare a = (a.compare b).map Ordering.swap := by
  have hfinite (e e' : ℤ) (m m' : ℕ) : (compare e' e).then (compare m' m) =
      ((compare e e').then (compare m m')).swap := by
    rw [Ordering.swap_then, Int.compare_swap, Nat.compare_swap]
  rcases a with s | _ | s | ⟨s, m, e, hm⟩ <;> rcases b with s' | _ | s' | ⟨s', m', e', hm'⟩ <;>
    try cases s <;> try cases s'
  case finite.finite.negative.negative => exact congrArg (some ·.swap) (hfinite e e' m m')
  case finite.finite.positive.positive => exact congrArg some (hfinite e e' m m')
  all_goals rfl

theorem not_le_of_lt {v w : Value} (h : v < w) : ¬ w ≤ v := by
  rw [lt_iff_parts] at h
  rw [le_iff_parts, UnpackedFloat.le, compare_swap, h]
  decide

/-- What lies between a number and something is a number. -/
theorem exists_number?_of_le_of_lt {v low high : Value} {p : ℚ} (hlow : low.number? = some p)
    (hle : low ≤ v) (hlt : v < high) : ∃ q, v.number? = some q := by
  rw [le_iff_parts] at hle
  rw [lt_iff_parts] at hlt
  unfold number?
  cases hv : v.parts with
  | zero sign => exact ⟨_, rfl⟩
  | finite sign mantissa exponent hpos => exact ⟨_, rfl⟩
  | notANumber =>
    rw [hv] at hlt
    cases hlt
  | infinity sign =>
    rw [hv] at hle hlt
    cases sign with
    | positive =>
      generalize high.parts = above at hlt
      rcases above with s | _ | s | _ <;> try cases s
      all_goals cases hlt
    | negative =>
      rcases number?_eq_some_iff.1 hlow with ⟨s, hp, -⟩ | ⟨s, m, e, hm, hp, -⟩
      · rw [hp] at hle
        cases hle
      · rw [hp] at hle
        cases s <;> cases hle

/-! Whole numbers of few bits are doubles, and become doubles unrounded. -/

/-- A significand that takes all of its 53 bits. The exponent may be too large for a double. -/
structure Normal (mantissa : ℕ) (exponent : ℤ) : Prop where
  full : 2 ^ 52 ≤ mantissa
  lt : mantissa < 2 ^ 53
  least : -1074 ≤ exponent

variable {m : ℕ} {e : ℤ}

theorem Normal.pos (h : Normal m e) : 0 < m :=
  Nat.lt_of_lt_of_le (by decide) h.full

theorem Normal.log2_eq (h : Normal m e) : m.log2 = 52 :=
  (Nat.log2_eq_iff h.pos.ne').2 ⟨h.full, h.lt⟩

theorem log2_scaled {n : ℕ} (hn : 0 < n) (k : ℕ) : (n * 2 ^ k).log2 = n.log2 + k := by
  rw [Nat.log2_eq_iff (by positivity)]
  constructor
  · rw [pow_add]
    exact Nat.mul_le_mul_right _ (Nat.log2_self_le hn.ne')
  · rw [add_right_comm, pow_add]
    exact Nat.mul_lt_mul_of_pos_right Nat.lt_log2_self (by positivity)

theorem totalExponent_scaled {n : ℕ} (hn : 0 < n) (e : ℤ) (k : ℕ) :
    totalExponent (n * 2 ^ k) e = totalExponent n (e + k) := by
  rw [totalExponent, totalExponent, log2_scaled hn]
  omega

theorem Normal.targetExponent_eq (h : Normal m e) :
    Format.binary64.targetExponent (totalExponent m e) = e := by
  have hleast := h.least
  rw [totalExponent, h.log2_eq]
  simp only [Format.targetExponent, Format.mantissaBits, Format.minExponent]
  omega

/-- Zeros are shifted out of a significand without a trace. -/
theorem shiftRight_scaled (m k : ℕ) :
    (⟨m * 2 ^ k, false, false⟩ : ExtendedMantissa) >>> k = ⟨m, false, false⟩ := by
  show k.repeat ExtendedMantissa.shiftRightOne _ = _
  induction k generalizing m with
  | zero => rw [pow_zero, mul_one]; rfl
  | succ k ih =>
    have hstep := ih (2 * m)
    rw [Nat.repeat, pow_succ', ← mul_assoc, mul_comm m, hstep]
    simp [ExtendedMantissa.shiftRightOne]

theorem Normal.shiftToTargetExponent_scaled (h : Normal m e) (k : ℕ) :
    UnpackedFloat.shiftToTargetExponent .binary64 (m * 2 ^ k) (e - k) .exact =
      (⟨m, false, false⟩, e) := by
  have hamount : (e - (e - k)).toNat = k := by omega
  rw [UnpackedFloat.shiftToTargetExponent, totalExponent_scaled h.pos, sub_add_cancel,
    h.targetExponent_eq, UnpackedFloat.shiftToExponent, hamount]
  refine Prod.ext ?_ (by simp)
  exact shiftRight_scaled m k

/-- What fits a double is not rounded, however many zeros its significand ends in. -/
theorem Normal.roundWithAccuracy_scaled (h : Normal m e) (sign : Sign) (k : ℕ) :
    UnpackedFloat.roundWithAccuracy .binary64 sign (m * 2 ^ k) (e - k) .exact =
      .finite sign m e h.pos := by
  have hagain := h.shiftToTargetExponent_scaled 0
  rw [pow_zero, mul_one, Nat.cast_zero, sub_zero] at hagain
  have hrounded : ExtendedMantissa.roundedMantissa ⟨m, false, false⟩ = m := rfl
  simp only [UnpackedFloat.roundWithAccuracy, h.shiftToTargetExponent_scaled k, hrounded, hagain]
  rw [dif_neg h.pos.ne']

theorem Normal.unpack_pack (h : Normal m e) (hgreatest : e ≤ 971) (sign : Sign) :
    UnpackedFloat.unpack .binary64 (UnpackedFloat.pack .binary64 (.finite sign m e h.pos)) =
      .finite sign m e h.pos := by
  have hfull := h.full
  have hlt := h.lt
  have hleast := h.least
  have hlog : m.log2 + 1 = Format.binary64.mantissaBits := by
    rw [h.log2_eq]
    rfl
  have hbias : (Format.binary64.exponentBias : ℤ) = 1023 := rfl
  obtain ⟨biased, hbiased⟩ : ∃ biased : ℕ, (biased : ℤ) = e + 1075 :=
    ⟨(e + 1075).toNat, Int.toNat_of_nonneg (by omega)⟩
  have hfield : (e + Format.binary64.exponentBias + (52 : ℕ)).toNat = biased := by omega
  have hpack : UnpackedFloat.pack .binary64 (.finite sign m e h.pos) =
      UnpackedFloat.packComponents .binary64 sign (BitVec.ofNat 11 biased) (BitVec.ofNat 52 m) := by
    simp only [UnpackedFloat.pack, hfield]
    rw [if_neg (by omega), if_pos hlog]
  have hexponent : (BitVec.ofNat 11 biased).toNat = biased := by
    rw [BitVec.toNat_ofNat, Nat.mod_eq_of_lt (by omega)]
  have hmantissa : (1#1 ++ BitVec.ofNat 52 m).toNat = m := by
    rw [toNat_one_append, BitVec.toNat_ofNat]
    omega
  rw [hpack]
  simp only [UnpackedFloat.unpack, UnpackedFloat.unpackMantissa_packComponents,
    UnpackedFloat.unpackExponent_packComponents, UnpackedFloat.unpackSign_packComponents,
    Sign.ofBitVec_toBitVec, hexponent, hbias]
  have hfinite : BitVec.ofNat 11 biased ≠ -1#11 := by
    intro heq
    have htop : biased = 2047 := hexponent.symm.trans (congrArg BitVec.toNat heq)
    omega
  have hnormal : BitVec.ofNat 11 biased ≠ 0#11 := by
    intro heq
    have hbottom : biased = 0 := hexponent.symm.trans (congrArg BitVec.toNat heq)
    omega
  rw [if_neg hfinite, if_neg hnormal, UnpackedFloat.finite.injEq]
  refine ⟨rfl, hmantissa, ?_⟩
  omega

theorem Normal.parts_pack (h : Normal m e) (hgreatest : e ≤ 971) (sign : Sign) :
    parts (.ofModel (.pack (.finite sign m e h.pos))) = .finite sign m e h.pos :=
  h.unpack_pack hgreatest sign

/-- A whole number of at most 53 bits fills a significand once zeros are put behind it. -/
theorem exists_normal {n : ℕ} (hpos : 0 < n) (hlt : n < 2 ^ 53) :
    ∃ k : ℕ, k ≤ 52 ∧ Normal (n * 2 ^ k) (-k) := by
  have hlow : 2 ^ n.log2 ≤ n := Nat.log2_self_le hpos.ne'
  have hhigh : n < 2 ^ (n.log2 + 1) := Nat.lt_log2_self
  have hbits : n.log2 < 53 := (Nat.log2_lt hpos.ne').2 hlt
  refine ⟨52 - n.log2, by omega, ?_, ?_, by omega⟩
  · calc 2 ^ 52 = 2 ^ n.log2 * 2 ^ (52 - n.log2) := by rw [← pow_add]; congr 1; omega
      _ ≤ n * 2 ^ (52 - n.log2) := Nat.mul_le_mul_right _ hlow
  · calc n * 2 ^ (52 - n.log2) < 2 ^ (n.log2 + 1) * 2 ^ (52 - n.log2) :=
        Nat.mul_lt_mul_of_pos_right hhigh (by positivity)
      _ = 2 ^ 53 := by rw [← pow_add]; congr 1; omega

theorem Normal.round_unscaled {n k : ℕ} (h : Normal (n * 2 ^ k) e) (sign : Sign) :
    UnpackedFloat.round .binary64 sign n (e + k) = .finite sign (n * 2 ^ k) e h.pos := by
  have htarget := h.targetExponent_eq
  have hround := h.roundWithAccuracy_scaled sign 0
  rw [totalExponent_scaled (Nat.pos_of_mul_pos_right h.pos)] at htarget
  rw [pow_zero, mul_one, Nat.cast_zero, sub_zero] at hround
  have hamount : (e + k - e).toNat = k := by omega
  simp only [UnpackedFloat.round, htarget, UnpackedFloat.decreaseExponent, hamount,
    add_sub_cancel_right, Nat.shiftLeft_eq]
  exact hround

theorem mul_eq (v w : Value) : v * w =
    .ofModel (.pack (UnpackedFloat.mul .binary64 v.parts w.parts)) :=
  rfl

theorem Normal.parts_toFloat {n k : ℕ} (h : Normal (n * 2 ^ k) (-k)) (hn : n < 2 ^ 64) :
    parts n.toUInt64.toFloat = .finite .positive (n * 2 ^ k) (-k) h.pos := by
  have hgreatest : -(k : ℤ) ≤ 971 := by omega
  have hpos : 0 < n := Nat.pos_of_mul_pos_right h.pos
  have hround := h.round_unscaled .positive
  rw [neg_add_cancel] at hround
  have hword : n.toUInt64.toNat = n := Nat.mod_eq_of_lt hn
  have hmodel : n.toUInt64.toFloat =
      .ofModel (.pack (.finite .positive (n * 2 ^ k) (-k) h.pos)) := by
    rw [← hround, UInt64.toFloat, Float.Model.ofUInt64, UnpackedFloat.ofUInt64, hword,
      UnpackedFloat.ofNat, UnpackedFloat.ofInt, UnpackedFloat.normalize,
      Int.compare_eq_gt.2 (by omega)]
    rfl
  rw [hmodel, h.parts_pack hgreatest]

theorem mul_finite_one (m : ℕ) (e : ℤ) (hpos : 0 < m) :
    UnpackedFloat.mul .binary64 (.finite .positive m e hpos) (1 : Value).parts =
      .roundWithAccuracy .binary64 .positive (m * 2 ^ 52) (e - (52 : ℕ)) .exact := by
  rw [parts_one, UnpackedFloat.mul]
  rfl

theorem Normal.parts_mul_one (h : Normal m e) (hgreatest : e ≤ 971) {v : Value}
    (hv : v.parts = .finite .positive m e h.pos) : (v * 1).parts = .finite .positive m e h.pos := by
  rw [mul_eq, hv, mul_finite_one, h.roundWithAccuracy_scaled, h.parts_pack hgreatest]

theorem ofScientific_zero {n : ℕ} (hn : 0 < n) :
    UnpackedFloat.ofScientific .binary64 n 0 =
      .roundWithAccuracy .binary64 .positive (n * 2 ^ 53) (-53) .exact := by
  have hpower : (2 ^ Format.binary64.exponentBits : ℤ) = 2048 := rfl
  have hexponent : -(Format.binary64.mantissaBits : ℤ) + 0 = -53 := rfl
  have hbits : Format.binary64.mantissaBits = 53 := rfl
  unfold UnpackedFloat.ofScientific
  rw [dif_neg hn.ne', if_neg (by decide), if_neg (by omega), if_pos le_rfl, UnpackedFloat.mul,
    hexponent, Int.toNat_zero, pow_zero, mul_one, Nat.shiftLeft_eq, hbits]
  rfl

theorem Normal.parts_ofNat {n k : ℕ} (h : Normal (n * 2 ^ k) (-k)) (hn : n < 2 ^ 53) :
    parts (Float.ofNat n) = .finite .positive (n * 2 ^ k) (-k) h.pos := by
  have hone : Float.exactlyRepresentablePowersOfTen[0] = (1 : Value) := rfl
  show parts (Float.ofScientific n false 0) = _
  unfold Float.ofScientific
  rw [dif_pos ⟨hn, by decide⟩, if_neg (by decide), hone]
  exact h.parts_mul_one (by omega) (h.parts_toFloat (by omega))

theorem ofNat_of_le {n : ℕ} (hn : 2 ^ 53 ≤ n) : Float.ofNat n =
    .ofModel (.pack (.roundWithAccuracy .binary64 .positive (n * 2 ^ 53) (-53) .exact)) := by
  have hpos : 0 < n := by omega
  show Float.ofScientific n false 0 = _
  unfold Float.ofScientific
  rw [dif_neg (by omega), ← ofScientific_zero hpos]
  rfl

theorem number?_of_parts {v : Value} {sign : Sign} {hpos : 0 < m}
    (h : v.parts = .finite sign m e hpos) : v.number? = some (signed sign (m * 2 ^ e)) := by
  rw [number?, h]

theorem Normal.parts_neg (h : Normal m e) (hgreatest : e ≤ 971) {v : Value}
    (hv : v.parts = .finite .positive m e h.pos) :
    parts (Float.neg v) = .finite .negative m e h.pos := by
  have hneg : Float.neg v = .ofModel (.pack v.parts.neg) := rfl
  rw [hneg, hv]
  exact h.parts_pack hgreatest .negative

/-- A whole number of at most 53 bits, followed by any number of zeros. -/
def Fits (n : ℕ) : Prop := ∃ k shift, k < 2 ^ 53 ∧ n = k * 2 ^ shift

theorem Fits.exists_parts_ofNat {n : ℕ} (h : Fits n) (hpos : 0 < n) (hlt : n < 2 ^ 64) :
    ∃ m e, ∃ hnormal : Normal m e, e ≤ 971 ∧
      parts (Float.ofNat n) = .finite .positive m e hnormal.pos ∧ (m : ℚ) * 2 ^ e = n := by
  have hzeros {k i : ℕ} {e : ℤ} : ((k * 2 ^ i : ℕ) : ℚ) * 2 ^ (e - i) = k * 2 ^ e := by
    rw [Nat.cast_mul, Nat.cast_pow, Nat.cast_ofNat, mul_assoc, ← zpow_natCast,
      ← zpow_add₀ two_ne_zero, add_sub_cancel]
  by_cases hsmall : n < 2 ^ 53
  · obtain ⟨i, hi, hnormal⟩ := exists_normal hpos hsmall
    refine ⟨_, _, hnormal, by omega, hnormal.parts_ofNat hsmall, ?_⟩
    rw [← zero_sub, hzeros, zpow_zero, mul_one]
  · obtain ⟨k, shift, hk, rfl⟩ := h
    have hkpos : 0 < k := Nat.pos_of_mul_pos_right hpos
    have hshift : shift < 64 := by
      rw [← Nat.pow_lt_pow_iff_right (a := 2) (by decide)]
      exact lt_of_le_of_lt (Nat.le_mul_of_pos_left _ hkpos) hlt
    obtain ⟨i, hi, hfull, hroom, -⟩ := exists_normal hkpos hk
    have hnormal : Normal (k * 2 ^ i) (shift - i) := ⟨hfull, hroom, by omega⟩
    have hscaled : k * 2 ^ shift * 2 ^ 53 = k * 2 ^ i * 2 ^ (53 + shift - i) := by
      rw [mul_assoc, mul_assoc, ← pow_add, ← pow_add]
      congr 2
      omega
    have hexponent : (-53 : ℤ) = shift - i - (53 + shift - i : ℕ) := by omega
    refine ⟨_, _, hnormal, by omega, ?_, ?_⟩
    · rw [ofNat_of_le (by omega), hscaled, hexponent, hnormal.roundWithAccuracy_scaled,
        hnormal.parts_pack (by omega)]
    · rw [hzeros, zpow_natCast]
      push_cast
      rfl

/-- A whole number of 64 bits that fits a double becomes that double. -/
theorem Fits.number?_ofInt {n : ℤ} (h : Fits n.natAbs) (hlt : n.natAbs < 2 ^ 64) :
    number? (Float.ofInt n) = some (n : ℚ) := by
  cases n with
  | ofNat k =>
    rcases Nat.eq_zero_or_pos k with rfl | hpos
    · rfl
    · obtain ⟨m, e, hnormal, -, hparts, hk⟩ := Fits.exists_parts_ofNat h hpos hlt
      have hnumber := number?_of_parts hparts
      rw [signed, hk] at hnumber
      exact hnumber
  | negSucc k =>
    obtain ⟨m, e, hnormal, hgreatest, hparts, hk⟩ := Fits.exists_parts_ofNat h k.succ_pos hlt
    have hnumber := number?_of_parts (hnormal.parts_neg hgreatest hparts)
    rw [signed, hk] at hnumber
    rw [Int.cast_negSucc]
    exact hnumber

theorem fits_of_le {n : ℕ} (h : n ≤ 2 ^ 53) : Fits n := by
  rcases h.lt_or_eq with h | rfl
  · exact ⟨n, 0, h, by rw [pow_zero, mul_one]⟩
  · exact ⟨1, 53, by decide, by rw [one_mul]⟩

theorem number?_ofNat {n : ℕ} (h : n ≤ 2 ^ 53) : number? (Float.ofNat n) = some (n : ℚ) := by
  have hlt : n < 2 ^ 64 := lt_of_le_of_lt h (by decide)
  exact Fits.number?_ofInt (n := (n : ℤ)) (fits_of_le h) hlt

/-! Whole parts. -/

theorem wholePart_eq_floor (m : ℕ) (e : ℤ) : wholePart m e = ⌊(m : ℚ) * 2 ^ e⌋₊ := by
  rw [wholePart, Nat.shiftLeft_eq, Nat.shiftRight_eq_div_pow]
  cases e with
  | ofNat k =>
    have hscaled : (m : ℚ) * 2 ^ k = (m * 2 ^ k : ℕ) := by push_cast; rfl
    show m * 2 ^ k / 2 ^ (-(k : ℤ)).toNat = _
    rw [Int.toNat_neg_natCast, pow_zero, Nat.div_one, Int.ofNat_eq_natCast, zpow_natCast, hscaled,
      Nat.floor_natCast]
  | negSucc k =>
    have hscaled : (2 : ℚ) ^ (k + 1) = (2 ^ (k + 1) : ℕ) := by push_cast; rfl
    show m * 2 ^ 0 / 2 ^ (k + 1) = _
    rw [pow_zero, mul_one, zpow_negSucc, ← div_eq_mul_inv, hscaled, Nat.floor_div_eq_div]

end CatLang.Value
