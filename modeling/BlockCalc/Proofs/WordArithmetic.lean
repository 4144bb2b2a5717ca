import BlockCalc.Proofs.WellFormed
import Mathlib.Data.Int.Bitwise

/-!
# The arithmetic of words

What the integer operators compute on words, said without words: by exact integers, by divisibility,
and by the bits of an integer, of which a negative one has infinitely many. Sums, differences and
products are exact or fail on the side on which they leave the range. Quotient and remainder belong
together: they exist for the same pairs, and are those of a division toward zero. Only a shift to
the left drops bits.
-/

namespace BlockCalc

namespace Word

/-- The outcome is an exact result, or tells on which side of the range that would be. -/
structure Exact (result : Int) (outcome : Except Cause Value) : Prop where
  fits : InRange result → outcome = .ok (.integer result)
  above : greatest < result → outcome = .error .overflow
  below : result < least → outcome = .error .underflow

/-- The outcomes are quotient and remainder of a division toward zero, or the same failure. -/
structure Divided (dividend divisor : Int) (quotient remainder : Except Cause Value) : Prop where
  byZero : divisor = 0 → quotient = .error .divideByZero ∧ remainder = .error .divideByZero
  beyond : dividend = least ∧ divisor = -1 →
    quotient = .error .overflow ∧ remainder = .error .overflow
  otherwise : divisor ≠ 0 → ¬(dividend = least ∧ divisor = -1) →
    ∃ whole rest, quotient = .ok (.integer whole) ∧ remainder = .ok (.integer rest) ∧
      InRange whole ∧ InRange rest ∧ dividend = divisor * whole + rest ∧
      rest.natAbs < divisor.natAbs ∧ (rest = 0 ∨ rest.sign = dividend.sign)

/-- The outcomes are a number shifted to the left and to the right, by a count that is in bounds. -/
structure Shifted (number count : Int) (left right : Except Cause Value) : Prop where
  inside : 0 ≤ count ∧ count < 32 →
    (∃ shifted, left = .ok (.integer shifted) ∧ InRange shifted ∧
      (2 ^ 32 : Int) ∣ number * 2 ^ count.toNat - shifted) ∧
    right = .ok (.integer (number.fdiv (2 ^ count.toNat)))
  outside : ¬(0 ≤ count ∧ count < 32) → left = .error .overflow ∧ right = .error .underflow

/-- The outcome is the word that has some bits, of which those from the sign bit on are equal. -/
def HasBits (outcome : Except Cause Value) (bits : Nat → Bool) : Prop :=
  ∃ number, outcome = .ok (.integer number) ∧ InRange number ∧
    ∀ index, number.testBit index = bits index

theorem exact_checked (result : Int) : Exact result (.integer <$> checked result) := by
  constructor
  · rintro ⟨low, high⟩
    simp only [checked, if_neg (Int.not_lt.mpr high), if_neg (Int.not_lt.mpr low)]
    rfl
  · intro above
    simp only [checked, if_pos above]
    rfl
  · intro below
    have notAbove : ¬greatest < result := by
      simp only [greatest, least] at below ⊢
      omega
    simp only [checked, if_neg notAbove, if_pos below]
    rfl

theorem checked_of_inRange {result : Int} (inRange : InRange result) :
    checked result = .ok result := by
  simp only [checked, if_neg (Int.not_lt.mpr inRange.1), if_neg (Int.not_lt.mpr inRange.2)]

/-- Only one quotient of words is no word. -/
theorem inRange_tdiv {dividend divisor : Int} (inRange : InRange dividend)
    (within : ¬(dividend = least ∧ divisor = -1)) : InRange (dividend.tdiv divisor) := by
  have size := Int.natAbs_tdiv_le_natAbs dividend divisor
  simp only [InRange, least, greatest] at inRange within ⊢
  by_cases lowest : dividend = -2147483648
  · -- Of the lowest word, only a divisor of size one leaves a quotient of that size.
    subst lowest
    have halved : 2 ≤ divisor.natAbs →
        ((-2147483648 : Int).tdiv divisor).natAbs ≤ 2147483648 / 2 := by
      intro big
      rw [Int.natAbs_tdiv]
      exact Nat.div_le_div_left big (by decide)
    by_cases big : 2 ≤ divisor.natAbs
    · have := halved big
      omega
    · have small : divisor = 0 ∨ divisor = 1 := by omega
      rcases small with rfl | rfl <;> decide
  · omega

theorem divided {dividend divisor : Int} (inRange : InRange dividend) :
    Divided dividend divisor (.integer <$> quotient dividend divisor)
      (.integer <$> remainder dividend divisor) where
  byZero := by
    rintro rfl
    exact ⟨rfl, rfl⟩
  beyond := by
    rintro ⟨rfl, rfl⟩
    exact ⟨rfl, rfl⟩
  otherwise := by
    intro nonzero within
    have wholeInRange := inRange_tdiv inRange within
    refine ⟨dividend.tdiv divisor, dividend.tmod divisor, ?_, ?_, wholeInRange,
      inRange_tmod inRange divisor, (Int.mul_tdiv_add_tmod dividend divisor).symm, ?_, ?_⟩
    · simp only [quotient, if_neg nonzero, truncated_eq_tdiv, checked_of_inRange wholeInRange]
      rfl
    · simp only [remainder, if_neg nonzero, if_neg within, sub_mul_truncated]
      rfl
    · rw [Int.natAbs_tmod]
      exact Nat.mod_lt _ (Int.natAbs_pos.mpr nonzero)
    · by_cases divides : divisor ∣ dividend
      · exact Or.inl (Int.tmod_eq_zero_of_dvd divides)
      · right
        rw [Int.sign_tmod, if_neg divides]

theorem toInt_ofInt_of_inRange {number : Int} (inRange : InRange number) :
    (ofInt number).toInt = number := by
  simp only [InRange, least, greatest] at inRange
  rw [ofInt, BitVec.toInt_ofInt, Int.bmod_eq_of_le_mul_two] <;> omega

theorem dvd_sub_toInt_shiftLeft (number : Int) (count : Nat) :
    (2 ^ 32 : Int) ∣ number * 2 ^ count - (ofInt number <<< count).toInt := by
  have reduced : ((ofInt number).toNat : Int) = number % (2 ^ 32 : Nat) := by
    rw [ofInt, BitVec.toNat_ofInt]
    exact Int.toNat_of_nonneg (Int.emod_nonneg _ (by decide))
  apply Int.dvd_of_emod_eq_zero
  rw [← Int.emod_eq_emod_iff_emod_sub_eq_zero, BitVec.toInt_shiftLeft, Nat.shiftLeft_eq,
    Nat.cast_mul, reduced, Nat.cast_pow]
  calc number * 2 ^ count % (2 ^ 32 : Nat)
    _ = number % (2 ^ 32 : Nat) * 2 ^ count % (2 ^ 32 : Nat) := by
      simp only [Int.mul_emod, Int.emod_emod]
    _ = (number % (2 ^ 32 : Nat) * 2 ^ count).bmod (2 ^ 32) % (2 ^ 32 : Nat) := Int.bmod_emod.symm

theorem shifted {number : Int} (inRange : InRange number) (count : Int) :
    Shifted number count (.integer <$> shiftLeft number count)
      (.integer <$> shiftRight number count) where
  inside := by
    intro inBounds
    simp only [shiftLeft, shiftRight, if_pos inBounds]
    refine ⟨⟨_, rfl, inRange_toInt _, dvd_sub_toInt_shiftLeft number _⟩, ?_⟩
    rw [BitVec.toInt_sshiftRight, toInt_ofInt_of_inRange inRange, Int.shiftRight_eq_div_pow,
      Int.fdiv_eq_ediv_of_nonneg _ (Int.pow_nonneg (by decide)), Nat.cast_pow]
    rfl
  outside := by
    intro outOfBounds
    simp only [shiftLeft, shiftRight, if_neg outOfBounds]
    exact ⟨rfl, rfl⟩

/-- The bits of a word as an integer go on with its sign bit. -/
theorem testBit_toInt (word : BitVec 32) (index : Nat) :
    word.toInt.testBit index = if index < 32 then word.getLsbD index else word.msb := by
  cases sign : word.msb with
  | false =>
      rw [BitVec.toInt_eq_toNat_of_msb sign]
      change word.toNat.testBit index = _
      split
      · exact BitVec.testBit_toNat word
      · rename_i beyond
        have below : word.toNat < 2 ^ index :=
          word.isLt.trans_le (Nat.pow_le_pow_right (by decide) (Nat.le_of_not_lt beyond))
        exact Nat.testBit_eq_false_of_lt below
  | true =>
      have below := word.isLt
      have negative : word.toInt = .negSucc (2 ^ 32 - (word.toNat + 1)) := by
        rw [BitVec.toInt_eq_msb_cond, sign, Int.negSucc_eq]
        simp only [if_true]
        omega
      rw [negative]
      change (!Nat.testBit _ index) = _
      rw [Nat.testBit_two_pow_sub_succ below, BitVec.testBit_toNat]
      split
      · rename_i within
        simp [within]
      · rename_i beyond
        simp [beyond]

theorem testBit_of_inRange {number : Int} (inRange : InRange number) (index : Nat) :
    number.testBit index =
      if index < 32 then (ofInt number).getLsbD index else (ofInt number).msb := by
  rw [← testBit_toInt, toInt_ofInt_of_inRange inRange]

/-- An operation on the bits of words is one on the bits of integers. -/
theorem hasBits_toInt {word : BitVec 32} {bits : Nat → Bool}
    (agrees : ∀ index, word.toInt.testBit index = bits index) :
    HasBits (.ok (.integer word.toInt)) bits :=
  ⟨word.toInt, rfl, inRange_toInt word, agrees⟩

/--
The integer operators on words. Sum, difference, product and negation are exact or out of range;
quotient and remainder go together; shifts multiply and divide by a power of two, where only the
multiplication drops what no word can hold; and bitwise operators work on all bits alike.
-/
theorem operators_on_words {left right : Int} (leftInRange : InRange left)
    (rightInRange : InRange right) :
    let binary (operator : BinaryOp) := operator.apply (.integer left) (.integer right)
    let unary (operator : UnaryOp) := operator.apply (.integer left)
    Exact (left + right) (binary .add) ∧ Exact (left - right) (binary .sub) ∧
      Exact (left * right) (binary .mul) ∧ Exact (-left) (unary .neg) ∧
      Divided left right (binary .div) (binary .rem) ∧
      Shifted left right (binary .shl) (binary .shr) ∧
      HasBits (binary .band) (fun index => left.testBit index && right.testBit index) ∧
      HasBits (binary .bor) (fun index => left.testBit index || right.testBit index) ∧
      HasBits (binary .bxor) (fun index => left.testBit index ^^ right.testBit index) ∧
      HasBits (unary .compl) (fun index => !left.testBit index) := by
  intro binary unary
  have leftBits := testBit_of_inRange leftInRange
  have rightBits := testBit_of_inRange rightInRange
  refine ⟨exact_checked _, exact_checked _, exact_checked _, exact_checked _, divided leftInRange,
    shifted leftInRange right, hasBits_toInt ?_, hasBits_toInt ?_, hasBits_toInt ?_,
    hasBits_toInt ?_⟩
  all_goals
    intro index
    simp only [testBit_toInt, leftBits, rightBits]
    split
    · rename_i within
      simp [within]
    · simp

theorem operators_on_words_lowest :
    UnaryOp.neg.apply (.integer least) = .error .overflow ∧
      BinaryOp.div.apply (.integer least) (.integer (-1)) = .error .overflow ∧
      BinaryOp.rem.apply (.integer least) (.integer (-1)) = .error .overflow := by
  have lowest : InRange least := by decide
  have minusOne : InRange (-1) := by decide
  rcases operators_on_words lowest minusOne with ⟨_, _, _, negated, divides, _⟩
  exact ⟨negated.above (by decide), divides.beyond ⟨rfl, rfl⟩⟩

end Word

end BlockCalc
