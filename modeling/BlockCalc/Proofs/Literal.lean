import BlockCalc.Literal
import BlockCalc.Proofs.TokenKinds
import Mathlib.Tactic.SplitIfs

/-!
# Literals that are too long

The conversion of an integer literal gives up on decimal literals with more than a fixed number of
digits. Which literals these are does not depend on what they are worth: leading zeros count, and
underscores do not.
-/

namespace BlockCalc

/-- The token is a decimal literal with `count` digits, more than are converted. -/
structure Token.Overlong (token : Token) (count : Nat) : Prop where
  word : token.kind = .word
  starts : token.startsWithDigit = true
  decimal : (Literal.splitBase token.text.toList).1 = 10
  digits : ∀ character ∈ token.text.toList.filter (· ≠ '_'), character.isDigit = true
  counted : (token.text.toList.filter (· ≠ '_')).length = count
  overlong : 4300 < count

/-- The literal that writes one zero and some more. -/
def Token.zeros (more : Nat) : Token where
  kind := .word
  text := String.ofList (List.replicate (more + 1) '0')
  start := {}
  nonempty := by simp

theorem Token.overlong_zeros {more : Nat} (long : 4300 ≤ more) :
    (zeros more).Overlong (more + 1) where
  word := rfl
  starts := by simp [zeros, startsWithDigit, first, Char.isDigit]
  decimal := by rcases more with _ | more <;> simp [zeros, List.replicate_succ, Literal.splitBase]
  digits := by simp [zeros, Char.isDigit]
  counted := by simp [zeros]
  overlong := by omega

namespace Literal

theorem splitBase_of_decimal {characters : List Char} (decimal : (splitBase characters).1 = 10) :
    (splitBase characters).2 = characters := by
  simp only [splitBase] at decimal ⊢
  split <;> simp_all

theorem isDigit_of_digit? {character : Char} {digit : Nat}
    (isDigit : digit? 10 character = some digit) : character.isDigit = true := by
  simp only [digit?] at isDigit
  simp only [Option.filter_eq_some_iff, decide_eq_true_eq] at isDigit
  rcases isDigit with ⟨value, small⟩
  simp only [Char.isDigit, Bool.and_eq_true, decide_eq_true_eq]
  split_ifs at value with decimal lower upper
  · exact decimal
  · simp only [Option.some.injEq] at value
    omega
  · simp only [Option.some.injEq] at value
    omega

theorem exists_digit? {character : Char} (isDigit : character.isDigit = true) :
    ∃ digit, digit? 10 character = some digit := by
  simp only [Char.isDigit, Bool.and_eq_true, decide_eq_true_eq] at isDigit
  have decimal : 0x30 ≤ character.toNat ∧ character.toNat ≤ 0x39 := isDigit
  refine ⟨character.toNat - 0x30, ?_⟩
  simp only [digit?, decimal, and_self, if_true, Option.filter_some, decide_eq_true_eq,
    Option.ite_none_right_eq_some, and_true]
  omega

theorem isDigit_of_mapM_digit? {characters : List Char} {digits : List Nat}
    (converted : characters.mapM (digit? 10) = some digits) :
    digits.length = characters.length ∧
      ∀ character ∈ characters, character.isDigit = true := by
  induction characters generalizing digits with
  | nil => simp_all
  | cons first rest ih =>
      simp only [List.mapM_cons, Option.bind_eq_bind, Option.bind_eq_some_iff,
        Option.pure_def, Option.some.injEq] at converted
      rcases converted with ⟨digit, firstDigit, following, restConverted, rfl⟩
      rcases ih restConverted with ⟨sameLength, restDigits⟩
      exact ⟨by simp [sameLength],
        List.forall_mem_cons.mpr ⟨isDigit_of_digit? firstDigit, restDigits⟩⟩

theorem exists_mapM_digit? {characters : List Char}
    (allDigits : ∀ character ∈ characters, character.isDigit = true) :
    ∃ digits : List Nat, digits.length = characters.length ∧
      characters.mapM (digit? 10) = some digits := by
  induction characters with
  | nil => exact ⟨[], rfl, rfl⟩
  | cons first rest ih =>
      rcases List.forall_mem_cons.mp allDigits with ⟨firstDigit, restDigits⟩
      rcases ih restDigits with ⟨digits, sameLength, converted⟩
      rcases exists_digit? firstDigit with ⟨digit, isDigit⟩
      exact ⟨digit :: digits, by simp [sameLength], by simp [isDigit, converted]⟩

/-- Only decimal literals can be too long, and only with decimal digits alone. -/
theorem eq_of_integer_tooLong {text : String} {count : Nat}
    (tooLong : integer text = .error (.tooLong count)) :
    (splitBase text.toList).1 = 10 ∧ Text.numeralLimit < count ∧
      ∃ digits : List Nat, digits.length = count ∧
        (text.toList.filter (· ≠ '_')).mapM (digit? 10) = some digits := by
  simp only [integer] at tooLong
  cases split : splitBase text.toList with
  | mk base written =>
      simp only [split] at tooLong
      split at tooLong
      · simp at tooLong
      · simp at tooLong
      · rename_i digits _ converted
        split_ifs at tooLong with long
        · rcases long with ⟨rfl, long⟩
          have whole := splitBase_of_decimal (congrArg Prod.fst split)
          rw [split] at whole
          simp only [Except.error.injEq, IntegerFault.tooLong.injEq] at tooLong
          subst tooLong
          exact ⟨rfl, long, digits, rfl, by rw [← whole]; exact converted⟩
        · cases tooLong

end Literal

theorem Token.overlong_of_tooLong {token : Token} {count : Nat} (word : token.kind = .word)
    (starts : token.startsWithDigit = true)
    (tooLong : Literal.integer token.text = .error (.tooLong count)) :
    token.Overlong count := by
  rcases Literal.eq_of_integer_tooLong tooLong with ⟨decimal, long, digits, counted, converted⟩
  rcases Literal.isDigit_of_mapM_digit? converted with ⟨sameLength, allDigits⟩
  exact ⟨word, starts, decimal, allDigits, sameLength.symm.trans counted, long⟩

/-- Every such literal is too long, whatever it is worth. -/
theorem Token.Overlong.integer_eq {token : Token} {count : Nat} (overlong : token.Overlong count) :
    Literal.integer token.text = .error (.tooLong count) := by
  have decimal := overlong.decimal
  have whole := Literal.splitBase_of_decimal decimal
  rcases Literal.exists_mapM_digit? overlong.digits with ⟨digits, sameLength, converted⟩
  have counted : digits.length = count := sameLength.trans overlong.counted
  have long : Text.numeralLimit < count := overlong.overlong
  cases split : Literal.splitBase token.text.toList with
  | mk base written =>
      simp only [split] at whole decimal
      subst whole decimal
      simp only [Literal.integer, split, converted]
      rcases digits with _ | ⟨first, rest⟩
      · subst counted
        cases long
      · simp only [counted, long, and_self, if_true]

end BlockCalc
