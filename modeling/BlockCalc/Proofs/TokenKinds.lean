import BlockCalc.Token

/-!
# What tokens cannot be at once

Only punctuation is an operator, a bracket or a semicolon, and no token is two of these. So the way
in which a token is read is the only one in which it could be.
-/

namespace BlockCalc.Token

variable {token : Token}

theorem kind_of_unary? {operator : UnaryOp} (writes : token.unary? = some operator) :
    token.kind = .punctuation := by
  rw [unary?_eq, Option.ite_none_right_eq_some] at writes
  exact writes.1

theorem kind_of_binary? {operator : BinaryOp} (writes : token.binary? = some operator) :
    token.kind = .punctuation := by
  rw [binary?_eq, Option.ite_none_right_eq_some] at writes
  exact writes.1

theorem kind_of_opens? {bracket : Bracket} (opens : token.opens? = some bracket) :
    token.kind = .punctuation := by
  rw [opens?, Option.ite_none_right_eq_some] at opens
  exact opens.1

theorem kind_of_isSeparator (separator : token.isSeparator = true) : token.kind = .punctuation := by
  simp only [isSeparator, isSymbol, Bool.and_eq_true, decide_eq_true_eq] at separator
  exact separator.1

theorem kind_of_isIdentifier (identifier : token.isIdentifier = true) : token.kind = .word := by
  simp only [isIdentifier, Bool.and_eq_true, decide_eq_true_eq] at identifier
  exact identifier.1.1

theorem kind_of_isLet (isLet : token.isLet = true) : token.kind = .word := by
  simp only [Token.isLet, Bool.and_eq_true, decide_eq_true_eq] at isLet
  exact isLet.1

theorem unary?_eq_none_of_kind (noPunctuation : token.kind ≠ .punctuation) :
    token.unary? = none := by
  rw [unary?_eq, if_neg noPunctuation]

theorem isLet_eq_false_of_kind (noWord : token.kind ≠ .word) : token.isLet = false := by
  simp [isLet, noWord]

theorem isLet_eq_false_of_startsWithDigit (starts : token.startsWithDigit = true) :
    token.isLet = false := by
  rcases token with ⟨kind, text⟩
  simp only [isLet, Bool.and_eq_false_iff, beq_eq_false_iff_ne]
  refine Or.inr fun keyword => ?_
  subst keyword
  simp [startsWithDigit, first, letKeyword, Char.isDigit] at starts

theorem isLet_eq_false_of_isIdentifier (identifier : token.isIdentifier = true) :
    token.isLet = false := by
  simp only [isIdentifier, Bool.and_eq_true, Bool.not_eq_true'] at identifier
  exact identifier.2

theorem startsWithDigit_of_isIdentifier (identifier : token.isIdentifier = true) :
    token.startsWithDigit = false := by
  simp only [isIdentifier, Bool.and_eq_true, Bool.not_eq_true'] at identifier
  exact identifier.1.2

/-- The token is neither a bracket nor a semicolon. -/
structure Plain (token : Token) : Prop where
  opens : token.opens? = none
  closes : token.closes? = none
  separator : token.isSeparator = false

theorem plain_of_kind (leaf : token.kind ≠ .punctuation) : token.Plain where
  opens := if_neg leaf
  closes := if_neg leaf
  separator := by simp [isSeparator, isSymbol, leaf]

theorem plain_of_text (punctuation : token.kind = .punctuation)
    (noOpener : Bracket.ofOpener? token.text = none)
    (noCloser : Bracket.ofCloser? token.text = none) (noSeparator : token.text ≠ ";") :
    token.Plain where
  opens := (if_pos punctuation).trans noOpener
  closes := (if_pos punctuation).trans noCloser
  separator := by simp [isSeparator, isSymbol, noSeparator]

theorem plain_of_isLet (isLet : token.isLet = true) : token.Plain := by
  apply plain_of_kind
  rw [kind_of_isLet isLet]
  decide

theorem plain_of_isIdentifier (identifier : token.isIdentifier = true) : token.Plain := by
  apply plain_of_kind
  rw [kind_of_isIdentifier identifier]
  decide

theorem plain_of_unary? {operator : UnaryOp} (writes : token.unary? = some operator) :
    token.Plain := by
  rw [unary?_eq, Option.ite_none_right_eq_some] at writes
  rcases writes with ⟨punctuation, found⟩
  have text : operator.symbol = token.text := by
    simpa using List.find?_some found
  apply plain_of_text punctuation
  all_goals
    rw [← text]
    cases operator <;> decide

theorem plain_of_binary? {operator : BinaryOp} (writes : token.binary? = some operator) :
    token.Plain := by
  rw [binary?_eq, Option.ite_none_right_eq_some] at writes
  rcases writes with ⟨punctuation, found⟩
  have text : operator.symbol = token.text := by
    simpa using List.find?_some found
  apply plain_of_text punctuation
  all_goals
    rw [← text]
    cases operator <;> decide

theorem binary?_eq_none_of_closes? {bracket : Bracket} (closes : token.closes? = some bracket) :
    token.binary? = none := by
  cases writes : token.binary? with
  | none => rfl
  | some operator => cases (plain_of_binary? writes).closes.symm.trans closes

theorem binary?_eq_none_of_opens? {bracket : Bracket} (opens : token.opens? = some bracket) :
    token.binary? = none := by
  cases writes : token.binary? with
  | none => rfl
  | some operator => cases (plain_of_binary? writes).opens.symm.trans opens

theorem closes?_eq_none_of_opens? {bracket : Bracket} (opens : token.opens? = some bracket) :
    token.closes? = none := by
  simp only [opens?, Bracket.ofOpener?] at opens
  simp only [closes?, Bracket.ofCloser?]
  split at opens
  · split at opens
    · rename_i symbol
      rw [symbol]
      simp [Bracket.opener, Bracket.closer]
    · split at opens
      · rename_i symbol
        rw [symbol]
        simp [Bracket.opener, Bracket.closer]
      · cases opens
  · cases opens

theorem opens?_eq_none_of_closes? {bracket : Bracket} (closes : token.closes? = some bracket) :
    token.opens? = none := by
  cases opens : token.opens? with
  | none => rfl
  | some other => simp [closes?_eq_none_of_opens? opens] at closes

section Separators

variable (separator : token.isSeparator = true)

include separator

theorem closes?_of_isSeparator : token.closes? = none := by
  simp only [isSeparator, isSymbol, Bool.and_eq_true, decide_eq_true_eq, beq_iff_eq] at separator
  simp [closes?, separator, Bracket.ofCloser?, Bracket.closer]

theorem opens?_of_isSeparator : token.opens? = none := by
  simp only [isSeparator, isSymbol, Bool.and_eq_true, decide_eq_true_eq, beq_iff_eq] at separator
  simp [opens?, separator, Bracket.ofOpener?, Bracket.opener]

end Separators

end BlockCalc.Token
