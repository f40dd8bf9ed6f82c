import CatLang.Proofs.Doubles

/-! Remainders are exact. The remainder of two whole numbers of at most 53 bits followed by zeros
is such a number again, so it becomes a double without being rounded, even where doubles have gaps
between whole numbers. -/
namespace CatLang.Value
open Float.Model.UnpackedFloat (Sign)

/-- A number without its fraction. -/
def towardZero (q : ℚ) : ℤ := if 0 ≤ q then ⌊q⌋ else ⌈q⌉

theorem towardZero_zero : towardZero 0 = 0 := rfl

theorem towardZero_signed (sign : Sign) {m : ℕ} (hm : 0 < m) (e : ℤ) :
    towardZero (signed sign (m * 2 ^ e)) = sign.apply (wholePart m e) := by
  have hpos : (0 : ℚ) < m * 2 ^ e := by positivity
  have hfloor : ⌊(m : ℚ) * 2 ^ e⌋ = (wholePart m e : ℤ) := by
    rw [wholePart_eq_floor, Int.natCast_floor_eq_floor hpos.le]
  unfold towardZero
  cases sign with
  | positive =>
    rw [signed, if_pos hpos.le, hfloor]
    rfl
  | negative =>
    rw [signed, if_neg (by linarith), Int.ceil_neg, hfloor]
    rfl

theorem truncate_eq {v : Value} {q : ℚ} (h : v.number? = some q) :
    v.truncate = max leastInt (min greatestInt (towardZero q)) := by
  unfold truncate
  rcases number?_eq_some_iff.1 h with ⟨sign, hv, rfl⟩ | ⟨sign, m, e, hm, hv, rfl⟩
  · rw [hv, towardZero_zero]
    rfl
  · rw [hv, towardZero_signed sign hm]

theorem truncate_of_mem {v : Value} {q : ℚ} (h : v.number? = some q)
    (hmem : towardZero q ∈ Set.Icc leastInt greatestInt) : v.truncate = towardZero q := by
  rw [truncate_eq h, min_eq_right hmem.2, max_eq_right hmem.1]

theorem fits_wholePart {m : ℕ} (hm : m < 2 ^ 53) (e : ℤ) : Fits (wholePart m e) := by
  unfold wholePart
  rw [Nat.shiftLeft_eq, Nat.shiftRight_eq_div_pow]
  rcases le_total 0 e with he | he
  · have hshift : (-e).toNat = 0 := by omega
    refine ⟨m, e.toNat, hm, ?_⟩
    rw [hshift, pow_zero, Nat.div_one]
  · apply fits_of_le
    rw [Int.toNat_eq_zero.2 he, pow_zero, mul_one]
    exact (Nat.div_le_self m _).trans hm.le

theorem fits_towardZero {v : Value} {q : ℚ} (h : v.number? = some q) :
    Fits (towardZero q).natAbs := by
  rcases number?_eq_some_iff.1 h with ⟨sign, hv, rfl⟩ | ⟨sign, m, e, hm, hv, rfl⟩
  · exact fits_of_le (Nat.zero_le _)
  · have hfits := fits_wholePart (mantissa_lt hv) e
    rw [towardZero_signed sign hm]
    cases sign with
    | positive => exact hfits
    | negative =>
      rw [Sign.apply, Int.natAbs_neg]
      exact hfits

/-- The zeros that both numbers end in stay; what is left of the remainder is below one of the two
that had at most 53 bits. -/
theorem Fits.mod {a b : ℕ} (ha : Fits a) (hb : Fits b) : Fits (a % b) := by
  obtain ⟨k, shift, hk, rfl⟩ := ha
  obtain ⟨k', shift', hk', rfl⟩ := hb
  rcases Nat.eq_zero_or_pos k' with rfl | hpos
  · rw [zero_mul, Nat.mod_zero]
    exact ⟨k, shift, hk, rfl⟩
  rcases le_total shift shift' with hle | hle
  · obtain ⟨d, rfl⟩ := Nat.exists_eq_add_of_le' hle
    refine ⟨k % (k' * 2 ^ d), shift, lt_of_le_of_lt (Nat.mod_le _ _) hk, ?_⟩
    rw [pow_add, ← mul_assoc, Nat.mul_mod_mul_right]
  · obtain ⟨d, rfl⟩ := Nat.exists_eq_add_of_le' hle
    refine ⟨k * 2 ^ d % k', shift', lt_trans (Nat.mod_lt _ hpos) hk', ?_⟩
    rw [pow_add, ← mul_assoc, Nat.mul_mod_mul_right]

theorem Fits.tmod {l r : ℤ} (hl : Fits l.natAbs) (hr : Fits r.natAbs) : Fits (l.tmod r).natAbs := by
  rw [Int.natAbs_tmod]
  exact hl.mod hr

/-- What is left of `l` after division by `r`, with the sign of `l`. -/
structure IsRemainder (l r rem : ℤ) : Prop where
  divides : ∃ quotient, l = quotient * r + rem
  lt : rem.natAbs < r.natAbs
  sign : rem = 0 ∨ rem.sign = l.sign

theorem isRemainder_tmod (l : ℤ) {r : ℤ} (hr : r ≠ 0) : IsRemainder l r (l.tmod r) where
  divides := ⟨l.tdiv r, (Int.tdiv_mul_add_tmod l r).symm⟩
  lt := by
    rw [Int.natAbs_tmod]
    exact Nat.mod_lt _ (Int.natAbs_pos.2 hr)
  sign := by
    have hsign := Int.sign_tmod l r
    split at hsign
    · exact .inl (Int.sign_eq_zero_iff_zero.1 hsign)
    · exact .inr hsign

theorem IsRemainder.nonneg {l r rem : ℤ} (h : IsRemainder l r rem) (hl : 0 ≤ l) : 0 ≤ rem := by
  rcases h.sign with hzero | hsign
  · omega
  · rwa [← Int.sign_nonneg_iff, hsign, Int.sign_nonneg_iff]

theorem IsRemainder.nonpos {l r rem : ℤ} (h : IsRemainder l r rem) (hl : l ≤ 0) : rem ≤ 0 := by
  rcases h.sign with hzero | hsign
  · omega
  · rwa [← Int.sign_nonpos_iff, hsign, Int.sign_nonpos_iff]

theorem IsRemainder.unique {l r rem rem' : ℤ} (h : IsRemainder l r rem)
    (h' : IsRemainder l r rem') : rem' = rem := by
  have hlt := h.lt
  have hlt' := h'.lt
  have hdvd : r ∣ rem' - rem := by
    obtain ⟨quotient, hl⟩ := h.divides
    obtain ⟨quotient', hl'⟩ := h'.divides
    use quotient - quotient'
    linarith
  have hclose : (rem' - rem).natAbs < r.natAbs := by
    rcases le_total 0 l with hl | hl
    · have hnonneg := h.nonneg hl
      have hnonneg' := h'.nonneg hl
      omega
    · have hnonpos := h.nonpos hl
      have hnonpos' := h'.nonpos hl
      omega
  have hsame := Int.eq_zero_of_dvd_of_natAbs_lt_natAbs hdvd hclose
  omega

theorem natAbs_tmod_lt {l : ℤ} (hl : l ∈ Set.Icc leastInt greatestInt) (r : ℤ) :
    (l.tmod r).natAbs < 2 ^ 64 := by
  have hle : (l.tmod r).natAbs ≤ l.natAbs := by
    rw [Int.natAbs_tmod]
    exact Nat.mod_le _ _
  rw [Set.mem_Icc] at hl
  unfold leastInt greatestInt at hl
  omega

/-- Operands that stand for numbers inside the 64-bit range, once their fractions are dropped, have
the one remainder with the sign of the left operand, and it is not rounded. -/
theorem modulo_exact (left right : Value) (a b : ℚ) (ha : left.number? = some a)
    (hb : right.number? = some b) (hl : towardZero a ∈ Set.Icc leastInt greatestInt)
    (hr : towardZero b ∈ Set.Icc leastInt greatestInt) :
    let l := towardZero a
    let r := towardZero b
    let excluded := r = 0 ∨ (l = leastInt ∧ r = -1)
    (¬ excluded → ∃ rem : ℤ, IsRemainder l r rem ∧ (∀ rem', IsRemainder l r rem' → rem' = rem) ∧
      Fits rem.natAbs ∧ modulo left right = Float.ofInt rem ∧
      (modulo left right).number? = some (rem : ℚ)) ∧
    (excluded → (modulo left right).isNaN = true) := by
  intro l r excluded
  have hmodulo : modulo left right = if excluded then notANumber else Float.ofInt (l.tmod r) := by
    unfold modulo
    rw [truncate_of_mem ha hl, truncate_of_mem hb hr]
  constructor
  · intro hdefined
    rw [if_neg hdefined] at hmodulo
    have hrem : IsRemainder l r (l.tmod r) :=
      isRemainder_tmod l fun hzero => hdefined (.inl hzero)
    have hfits : Fits (l.tmod r).natAbs := (fits_towardZero ha).tmod (fits_towardZero hb)
    refine ⟨l.tmod r, hrem, fun rem' h' => hrem.unique h', hfits, hmodulo, ?_⟩
    rw [hmodulo]
    exact hfits.number?_ofInt (natAbs_tmod_lt hl r)
  · intro hexcluded
    rw [hmodulo, if_pos hexcluded]
    decide

theorem towardZero_intCast (n : ℤ) : towardZero n = n := by
  unfold towardZero
  rw [Int.floor_intCast, Int.ceil_intCast, ite_self]

/-- The remainder of the first two has 61 bits; the other two are the pair without one. -/
theorem modulo_exact_above_gaps :
    (number? (Float.ofInt 9223372036854774784) = some ((9223372036854774784 : ℤ) : ℚ) ∧
      number? (Float.ofInt (-6917529027641081856)) = some ((-6917529027641081856 : ℤ) : ℚ) ∧
      IsRemainder 9223372036854774784 (-6917529027641081856) 2305843009213692928 ∧
      number? (modulo (Float.ofInt 9223372036854774784) (Float.ofInt (-6917529027641081856))) =
        some ((2305843009213692928 : ℤ) : ℚ)) ∧
    number? (Float.ofInt leastInt) = some (leastInt : ℚ) ∧
      number? (Float.ofInt (-1)) = some ((-1 : ℤ) : ℚ) ∧
      (modulo (Float.ofInt leastInt) (Float.ofInt (-1))).isNaN = true := by
  have hleft : number? (Float.ofInt 9223372036854774784) = some ((9223372036854774784 : ℤ) : ℚ) :=
    Fits.number?_ofInt ⟨9007199254740991, 10, by decide, rfl⟩ (by decide)
  have hright : number? (Float.ofInt (-6917529027641081856)) =
      some ((-6917529027641081856 : ℤ) : ℚ) :=
    Fits.number?_ofInt ⟨3, 61, by decide, rfl⟩ (by decide)
  have hleast : number? (Float.ofInt leastInt) = some (leastInt : ℚ) :=
    Fits.number?_ofInt ⟨1, 63, by decide, rfl⟩ (by decide)
  have hminus : number? (Float.ofInt (-1)) = some ((-1 : ℤ) : ℚ) :=
    Fits.number?_ofInt ⟨1, 0, by decide, rfl⟩ (by decide)
  have hrem : IsRemainder 9223372036854774784 (-6917529027641081856) 2305843009213692928 :=
    ⟨⟨-1, rfl⟩, by decide, .inr rfl⟩
  have hmem {n : ℤ} (h : n ∈ Set.Icc leastInt greatestInt) :
      towardZero n ∈ Set.Icc leastInt greatestInt := by rwa [towardZero_intCast]
  refine ⟨⟨hleft, hright, hrem, ?_⟩, hleast, hminus, ?_⟩
  · have hexact := (modulo_exact _ _ _ _ hleft hright (hmem ⟨by decide, by decide⟩)
      (hmem ⟨by decide, by decide⟩)).1
    rw [towardZero_intCast, towardZero_intCast] at hexact
    obtain ⟨rem, -, hunique, -, -, hnumber⟩ := hexact (by decide)
    rw [hnumber, ← hunique _ hrem]
  · apply (modulo_exact _ _ _ _ hleast hminus (hmem ⟨by decide, by decide⟩)
      (hmem ⟨by decide, by decide⟩)).2
    rw [towardZero_intCast, towardZero_intCast]
    exact .inr ⟨rfl, rfl⟩

end CatLang.Value
