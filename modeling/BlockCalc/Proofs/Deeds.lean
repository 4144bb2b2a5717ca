import BlockCalc.Proofs.Effect
import BlockCalc.Proofs.Reading
import BlockCalc.Proofs.TokenKinds

/-!
# What a token does

Between two brackets, what the evaluator does on a token is settled as soon as it is known in which
phase the token is read, where it stands, and which variables are visible. `Eval.Does` lists what
can come of it: the phase turns into another one, the evaluation fails, or one of three deeds is
done that change the session. Whatever is to hold behind every token is proved by going through that
list. There are such lists for the end of a statement and for the two ends of a bracket as well.
-/

namespace BlockCalc

variable {σ : Type}

/-- The place at which a token stands, as locations show it. -/
def Token.location (fileName : String) (source : Source) (token : Token) : Location where
  file := fileName
  line := token.start.line
  column := token.start.column
  statement := source.statement token.start.line

/-- The place at which a token stands in what has been fed to a session. -/
abbrev Session.site (settings : Settings σ) (session : Session σ) (token : Token) : Location :=
  token.location settings.fileName session.source

/-- What unary operators make of an operand; the last one that was read is next to it. -/
def Term.wrapped (site : Token → Location) (term : Term) : List Token → Term
  | [] => term
  | token :: outer =>
      match token.unary? with
      | some operator => wrapped site (.unary operator term (site token)) outer
      | none => wrapped site term outer

namespace Token

/-- A word is an operand: a literal, or a variable that is visible. -/
inductive IsTerm (settings : Settings σ) (session : Session σ) (token : Token) : Term → Prop where
  | number {number : Int} (starts : token.startsWithDigit = true)
      (written : Literal.integer token.text = .ok number) :
      IsTerm settings session token (.value (.integer number) (session.site settings token))
  | «variable» (noNumber : token.startsWithDigit = false) (noLet : token.isLet = false)
      (visible : session.scope.has token.text = true) :
      IsTerm settings session token (.variable token.text (session.site settings token))

/-- A word is no operand, for which the evaluation fails. -/
inductive NoTerm (settings : Settings σ) (session : Session σ) (token : Token) :
    Failure → Prop where
  | invalid (starts : token.startsWithDigit = true)
      (written : Literal.integer token.text = .error .invalid) :
      NoTerm settings session token
        { cause := .invalidInteger token.text, location := some (session.site settings token) }
  | tooLong {digits : Nat} (starts : token.startsWithDigit = true)
      (written : Literal.integer token.text = .error (.tooLong digits)) :
      NoTerm settings session token
        { cause := .unhandled (.tooManyDigits digits), location := session.log.lastLocation }
  | keyword (noNumber : token.startsWithDigit = false) (isLet : token.isLet = true) :
      NoTerm settings session token
        { cause := .invalidExpression .misplacedLet,
          location := some (session.site settings token) }
  | hidden (noNumber : token.startsWithDigit = false) (noLet : token.isLet = false)
      (hidden : session.scope.has token.text = false) :
      NoTerm settings session token
        { cause := .variableNotFound token.text, location := some (session.site settings token) }

variable {settings : Settings σ} {session : Session σ} {token : Token}

theorem IsTerm.isLet_eq_false {term : Term} (isTerm : token.IsTerm settings session term) :
    token.isLet = false := by
  cases isTerm with
  | number starts written => exact isLet_eq_false_of_startsWithDigit starts
  | «variable» noNumber noLet visible => exact noLet

end Token

namespace Phase

/-- The value of a statement that may end here without anything being done. -/
inductive Yields : Phase → Value → Prop where
  | statement (last : Value) : Yields (.statement last) last
  | named (name : Token) : Yields (.named name) .void
  | block (value : Value) (location : Location) : Yields (.block value location) value

/-- A statement may begin here; behind a block it does unless an operator is upcoming. -/
inductive Begins (enclosure : Enclosure) (upcoming : Option BinaryOp) : Phase → Prop where
  | first (last : Value) : Begins enclosure upcoming (.statement last)
  | next (value : Value) (location : Location) (inStatements : enclosure = .statements)
      (noOperator : upcoming = none) : Begins enclosure upcoming (.block value location)

/-- An operand may stand here, before which these operators wait. -/
inductive Awaits (enclosure : Enclosure) (upcoming : Option BinaryOp) :
    Phase → List Pending → List Token → Prop where
  | begins {phase : Phase} (begins : phase.Begins enclosure upcoming) :
      Awaits enclosure upcoming phase [] []
  | operand (pending : List Pending) (unary : List Token) :
      Awaits enclosure upcoming (.operand pending unary) pending unary

/-- An operand has been read, which an operator may follow; a block is one if an operator does. -/
inductive Offers (settings : Settings σ) (session : Session σ) (upcoming : Option BinaryOp) :
    Phase → List Pending → Term → Prop where
  | operator (pending : List Pending) (term : Term) :
      Offers settings session upcoming (.operator pending term) pending term
  | named {name : Token} {term : Term} (isTerm : name.IsTerm settings session term) :
      Offers settings session upcoming (.named name) [] term
  | block (value : Value) (location : Location) (follows : upcoming.isSome = true) :
      Offers settings session upcoming (.block value location) [] (.value value location)

/-- A statement cannot end here, for which the evaluation fails. -/
inductive Unfinished (settings : Settings σ) (session : Session σ) (next : Option Token) :
    Phase → Failure → Prop where
  | naming (keyword : Token) :
      Unfinished settings session next (.naming keyword)
        { cause := .invalidExpression .letWithoutName,
          location := some (session.site settings keyword) }
  | unary (pending : List Pending) (operator : Token) (outer : List Token) :
      Unfinished settings session next (.operand pending (operator :: outer))
        { cause := .invalidExpression .missingOperand,
          location := some (session.site settings operator) }
  | binary (top : Pending) (outer : List Pending) :
      Unfinished settings session next (.operand (top :: outer) [])
        { cause := .invalidExpression .missingOperand, location := some top.location }
  | nothing :
      Unfinished settings session next (.operand [] [])
        { cause := .noInput, location := next.map (session.site settings) }

end Phase

/-- What has been read behind the closer of a bracket. -/
def Phase.closing (site : Token → Location) (bracket : Bracket) (pending : List Pending)
    (unary : List Token) (value : Value) (location : Location) : Phase :=
  match bracket, pending, unary with
  | .curly, [], [] => .block value location
  | _, pending, unary => .operator pending ((Term.value value location).wrapped site unary)

/-- The failure of an expression that ends before its bracket does. -/
def Group.cut (group : Group) : Failure where
  cause := .bracketMismatch group.bracket.opener
  location := some group.location

namespace Eval

/-- What the evaluator does on a token. -/
inductive Deed where
  /-- The phase turns into another one, and the session stays as it is. -/
  | turn (next : Phase)
  /-- The evaluation fails, and the session stays as it is. -/
  | refuse (failure : Failure)
  /-- An operator goes on the stack behind its operand. -/
  | push (operator : BinaryOp) (location : Location) (pending : List Pending) (term : Term)
  | declare (name : Token) (location : Location)
  /-- An expression ends behind its last operand. -/
  | conclude (enclosure : Enclosure) (pending : List Pending) (term : Term)

/-- The action that a deed is. -/
def Deed.run (settings : Settings σ) : Deed → Eval σ Phase
  | turn next => pure next
  | refuse failure => throw failure
  | push operator location pending term => do
      return .operand (← pushOperator settings operator location pending term) []
  | declare name location => do
      Eval.declare settings name.text location
      return .named name
  | conclude enclosure pending term => do
      let _ ← collapse settings pending term
      endExpression enclosure
      return .statement .void

section Tokens

variable (settings : Settings σ) (session : Session σ) (enclosure : Enclosure) (token : Token)

/-- A token makes one phase follow another. -/
inductive Leads : Phase → Phase → Prop where
  | ends {phase : Phase} {value : Value} (separator : token.isSeparator = true)
      (yields : phase.Yields value) (inStatements : enclosure = .statements) :
      Leads phase (.statement .void)
  | keyword {phase : Phase} (isLet : token.isLet = true)
      (begins : phase.Begins enclosure token.binary?) : Leads phase (.naming token)
  | string {phase : Phase} {pending : List Pending} {unary : List Token}
      (awaits : phase.Awaits enclosure token.binary? pending unary)
      (string : token.kind = .string) :
      Leads phase (.operator pending (Term.wrapped (session.site settings)
        (.value (Literal.string token.text) (session.site settings token)) unary))
  | word {phase : Phase} {pending : List Pending} {unary : List Token} {term : Term}
      (awaits : phase.Awaits enclosure token.binary? pending unary) (word : token.kind = .word)
      (isTerm : token.IsTerm settings session term) :
      Leads phase (.operator pending (term.wrapped (session.site settings) unary))
  | unary {phase : Phase} {pending : List Pending} {unary : List Token}
      (awaits : phase.Awaits enclosure token.binary? pending unary)
      (punctuation : token.kind = .punctuation) (isUnary : token.unary?.isSome = true) :
      Leads phase (.operand pending (token :: unary))

/-- A token cannot stand in a phase, for which the evaluation fails. -/
inductive Refuses : Phase → Failure → Prop where
  | unfinished {phase : Phase} {failure : Failure} (separator : token.isSeparator = true)
      (unfinished : phase.Unfinished settings session (some token) failure) :
      Refuses phase failure
  | ends {phase : Phase} {value : Value} {group : Group} (separator : token.isSeparator = true)
      (yields : phase.Yields value) (inside : enclosure = .parenthesis group) :
      Refuses phase group.cut
  | behindBlock {value : Value} {location : Location} {group : Group}
      (noSeparator : token.isSeparator = false) (noOperator : token.binary? = none)
      (inside : enclosure = .parenthesis group) : Refuses (.block value location) group.cut
  | unnamed {keyword : Token} (noSeparator : token.isSeparator = false)
      (noName : token.isIdentifier = false) :
      Refuses (.naming keyword)
        { cause := .invalidExpression .letWithoutName,
          location := some (session.site settings keyword) }
  | word {phase : Phase} {pending : List Pending} {unary : List Token} {failure : Failure}
      (awaits : phase.Awaits enclosure token.binary? pending unary) (word : token.kind = .word)
      (noKeyword : phase.Begins enclosure token.binary? → token.isLet = false)
      (noTerm : token.NoTerm settings session failure) : Refuses phase failure
  | illegal {phase : Phase} {pending : List Pending} {unary : List Token}
      (awaits : phase.Awaits enclosure token.binary? pending unary)
      (punctuation : token.kind = .punctuation) (noUnary : token.unary? = none)
      (isOperator : token.binary?.isSome = true) :
      Refuses phase
        { cause := .invalidExpression (.illegalOperator token.text),
          location := some (session.site settings token) }
  | unknown {phase : Phase} {pending : List Pending} {unary : List Token}
      (awaits : phase.Awaits enclosure token.binary? pending unary)
      (noSeparator : token.isSeparator = false) (punctuation : token.kind = .punctuation)
      (noUnary : token.unary? = none) (noOperator : token.binary? = none) :
      Refuses phase
        { cause := .variableNotFound token.text, location := some (session.site settings token) }
  | name {name : Token} {failure : Failure} (noSeparator : token.isSeparator = false)
      (noTerm : name.NoTerm settings session failure) : Refuses (.named name) failure
  | noOperator {phase : Phase} {pending : List Pending} {term : Term}
      (offers : phase.Offers settings session token.binary? pending term)
      (noSeparator : token.isSeparator = false) (noOperator : token.binary? = none) :
      Refuses phase
        { cause := .invalidExpression (.expectedOperator token.text),
          location := some (session.site settings token) }

/-- An opener cannot stand in a phase, for which the evaluation fails. -/
inductive Bars : Phase → Failure → Prop where
  | naming (keyword : Token) :
      Bars (.naming keyword)
        { cause := .invalidExpression .letWithoutName,
          location := some (session.site settings keyword) }
  | name {name : Token} {failure : Failure} (noTerm : name.NoTerm settings session failure) :
      Bars (.named name) failure
  | noOperator {phase : Phase} {pending : List Pending} {term : Term}
      (offers : phase.Offers settings session none pending term) :
      Bars phase
        { cause := .invalidExpression (.expectedOperator token.text),
          location := some (session.site settings token) }
  | behindBlock {value : Value} {location : Location} {group : Group}
      (inside : enclosure = .parenthesis group) : Bars (.block value location) group.cut

/-- What a token does in a phase. -/
inductive Does : Phase → Deed → Prop where
  | turns {phase next : Phase} (leads : Leads settings session enclosure token phase next) :
      Does phase (.turn next)
  | refuses {phase : Phase} {failure : Failure}
      (refuses : Refuses settings session enclosure token phase failure) :
      Does phase (.refuse failure)
  | pushes {phase : Phase} {pending : List Pending} {term : Term} {operator : BinaryOp}
      (offers : phase.Offers settings session token.binary? pending term)
      (stands : token.binary? = some operator) :
      Does phase (.push operator (session.site settings token) pending term)
  | declares (keyword : Token) (identifier : token.isIdentifier = true) :
      Does (.naming keyword) (.declare token (session.site settings token))
  | concludes {pending : List Pending} {term : Term} (separator : token.isSeparator = true) :
      Does (.operator pending term) (.conclude enclosure pending term)

end Tokens

section Words

variable {settings : Settings σ} {session : Session σ} {token : Token}

theorem wordTerm_of_isTerm {term : Term} (isTerm : token.IsTerm settings session term) :
    wordTerm settings token session = .ok term session := by
  cases isTerm with
  | number starts written =>
      simp only [wordTerm, integerTerm, starts, if_true, written]
      rfl
  | «variable» noNumber noLet visible =>
      simp only [wordTerm, noNumber, noLet, Bool.false_eq_true, if_false]
      change (if session.scope.has token.text = true then _ else _ : Eval σ Term) session = _
      rw [if_pos visible]
      rfl

theorem wordTerm_of_noTerm {failure : Failure} (noTerm : token.NoTerm settings session failure) :
    wordTerm settings token session = .error failure session := by
  cases noTerm with
  | invalid starts written =>
      simp only [wordTerm, integerTerm, starts, if_true, written]
      rfl
  | tooLong starts written =>
      simp only [wordTerm, integerTerm, starts, if_true, written]
      rfl
  | keyword noNumber isLet =>
      simp only [wordTerm, noNumber, isLet, Bool.false_eq_true, if_false, if_true]
      rfl
  | hidden noNumber noLet hidden =>
      simp only [wordTerm, noNumber, noLet, Bool.false_eq_true, if_false]
      change (if session.scope.has token.text = true then _ else _ : Eval σ Term) session = _
      rw [if_neg (Bool.eq_false_iff.mp hidden)]
      rfl

theorem isTerm_or_noTerm (settings : Settings σ) (session : Session σ) (token : Token) :
    (∃ term, token.IsTerm settings session term) ∨
      ∃ failure, token.NoTerm settings session failure := by
  cases starts : token.startsWithDigit with
  | true =>
      cases written : Literal.integer token.text with
      | ok number => exact Or.inl ⟨_, .number starts written⟩
      | error fault =>
          cases fault with
          | invalid => exact Or.inr ⟨_, .invalid starts written⟩
          | tooLong digits => exact Or.inr ⟨_, .tooLong starts written⟩
  | false =>
      cases isLet : token.isLet with
      | true => exact Or.inr ⟨_, .keyword starts isLet⟩
      | false =>
          cases visible : session.scope.has token.text with
          | true => exact Or.inl ⟨_, .variable starts isLet visible⟩
          | false => exact Or.inr ⟨_, .hidden starts isLet visible⟩

theorem wrap_eq (settings : Settings σ) (unary : List Token) (term : Term)
    (session : Session σ) :
    wrap settings unary term session =
      .ok (term.wrapped (session.site settings) unary) session := by
  induction unary generalizing term with
  | nil => rfl
  | cons token outer ih =>
      simp only [wrap, Term.wrapped]
      cases token.unary? with
      | none => exact ih term
      | some operator => exact ih _

end Words

section Doing

variable {settings : Settings σ} {session : Session σ} {enclosure : Enclosure} {token : Token}
  {phase : Phase} {pending : List Pending} {unary : List Token} {term : Term}

/-- Where an operand may stand, a token is read as one unless it declares. -/
theorem readToken_of_awaits (awaits : phase.Awaits enclosure token.binary? pending unary)
    (noSeparator : token.isSeparator = false)
    (noKeyword : phase.Begins enclosure token.binary? → token.isLet = false) :
    readToken settings enclosure token phase = readOperand settings pending unary token := by
  simp only [readToken, noSeparator, Bool.false_eq_true, if_false]
  cases awaits with
  | begins begins =>
      have noLet := noKeyword begins
      cases begins with
      | first last => simp only [readFirst, noLet, Bool.false_eq_true, if_false]
      | next value location inStatements noOperator =>
          simp only [noOperator, inStatements, endExpression, readFirst, noLet, Option.isSome_none,
            Bool.false_eq_true, if_false, pure_bind]
  | operand pending unary => rfl

/-- Behind an operand, a token is read as an operator. -/
theorem readToken_of_offers
    (offers : phase.Offers settings session token.binary? pending term)
    (noSeparator : token.isSeparator = false) :
    readToken settings enclosure token phase session =
      readOperator settings pending term token session := by
  simp only [readToken, noSeparator, Bool.false_eq_true, if_false]
  cases offers with
  | operator pending term => rfl
  | named isTerm => exact bind_of_ok (wordTerm_of_isTerm isTerm)
  | block value location follows => simp only [follows, if_true]

theorem readOperand_of_string (string : token.kind = .string) :
    readOperand settings pending unary token session =
      .ok (.operator pending (Term.wrapped (session.site settings)
        (.value (Literal.string token.text) (session.site settings token)) unary)) session := by
  simp only [readOperand, string]
  exact bind_of_ok (wrap_eq settings unary _ session)

theorem readOperand_of_isTerm (word : token.kind = .word)
    (isTerm : token.IsTerm settings session term) :
    readOperand settings pending unary token session =
      .ok (.operator pending (term.wrapped (session.site settings) unary)) session := by
  simp only [readOperand, word]
  exact (bind_of_ok (wordTerm_of_isTerm isTerm)).trans
    (bind_of_ok (wrap_eq settings unary term session))

theorem readOperand_of_unary (punctuation : token.kind = .punctuation)
    (isUnary : token.unary?.isSome = true) :
    readOperand settings pending unary token = pure (.operand pending (token :: unary)) := by
  simp only [readOperand, punctuation, isUnary, if_true]

theorem Leads.run_eq {next : Phase} (leads : Leads settings session enclosure token phase next) :
    readToken settings enclosure token phase session = .ok next session := by
  cases leads with
  | ends separator yields inStatements =>
      subst inStatements
      cases yields <;> simp only [readToken, separator, if_true] <;> rfl
  | keyword isLet begins =>
      have noSeparator := (Token.plain_of_isLet isLet).separator
      cases begins with
      | first last =>
          simp only [readToken, noSeparator, readFirst, isLet, Bool.false_eq_true, if_false,
            if_true]
          rfl
      | next value location inStatements noOperator =>
          subst inStatements
          simp only [readToken, noSeparator, readFirst, isLet, noOperator, Option.isSome_none,
            Bool.false_eq_true, if_false, if_true]
          rfl
  | string awaits string =>
      have leaf : token.kind ≠ .punctuation := by simp [string]
      have noLet : token.isLet = false := Token.isLet_eq_false_of_kind (by simp [string])
      rw [readToken_of_awaits awaits (Token.plain_of_kind leaf).separator fun _ => noLet]
      exact readOperand_of_string string
  | word awaits word isTerm =>
      have leaf : token.kind ≠ .punctuation := by simp [word]
      rw [readToken_of_awaits awaits (Token.plain_of_kind leaf).separator
        fun _ => isTerm.isLet_eq_false]
      exact readOperand_of_isTerm word isTerm
  | unary awaits punctuation isUnary =>
      have noLet : token.isLet = false := Token.isLet_eq_false_of_kind (by simp [punctuation])
      rcases Option.isSome_iff_exists.mp isUnary with ⟨operator, writes⟩
      rw [readToken_of_awaits awaits (Token.plain_of_unary? writes).separator fun _ => noLet,
        readOperand_of_unary punctuation isUnary]
      rfl

theorem finish_of_yields {value : Value} (yields : phase.Yields value) (next : Option Token) :
    finish settings next phase = pure value := by
  cases yields <;> rfl

theorem finish_of_unfinished {next : Option Token} {failure : Failure}
    (unfinished : phase.Unfinished settings session next failure) :
    finish settings next phase session = .error failure session := by
  cases unfinished with
  | naming keyword => rfl
  | unary pending operator outer => rfl
  | binary top outer => rfl
  | nothing => cases next <;> rfl

theorem Refuses.run_eq {failure : Failure}
    (refuses : Refuses settings session enclosure token phase failure) :
    readToken settings enclosure token phase session = .error failure session := by
  cases refuses with
  | unfinished separator unfinished =>
      simp only [readToken, separator, if_true]
      exact bind_of_error (finish_of_unfinished unfinished)
  | ends separator yields inside =>
      subst inside
      simp only [readToken, separator, if_true, finish_of_yields yields, pure_bind]
      rfl
  | behindBlock noSeparator noOperator inside =>
      subst inside
      simp only [readToken, noSeparator, noOperator, Option.isSome_none, Bool.false_eq_true,
        if_false]
      rfl
  | unnamed noSeparator noName =>
      simp only [readToken, noSeparator, readName, noName, Bool.false_eq_true, if_false]
      rfl
  | word awaits word noKeyword noTerm =>
      have leaf : token.kind ≠ .punctuation := by simp [word]
      rw [readToken_of_awaits awaits (Token.plain_of_kind leaf).separator noKeyword]
      simp only [readOperand, word]
      exact bind_of_error (wordTerm_of_noTerm noTerm)
  | illegal awaits punctuation noUnary isOperator =>
      have noLet : token.isLet = false := Token.isLet_eq_false_of_kind (by simp [punctuation])
      rcases Option.isSome_iff_exists.mp isOperator with ⟨operator, writes⟩
      rw [readToken_of_awaits awaits (Token.plain_of_binary? writes).separator fun _ => noLet]
      simp only [readOperand, punctuation, noUnary, isOperator, Option.isSome_none,
        Bool.false_eq_true, if_false, if_true]
      rfl
  | unknown awaits noSeparator punctuation noUnary noOperator =>
      have noLet : token.isLet = false := Token.isLet_eq_false_of_kind (by simp [punctuation])
      rw [readToken_of_awaits awaits noSeparator fun _ => noLet]
      simp only [readOperand, punctuation, noUnary, noOperator, Option.isSome_none,
        Bool.false_eq_true, if_false]
      rfl
  | name noSeparator noTerm =>
      simp only [readToken, noSeparator, Bool.false_eq_true, if_false]
      exact bind_of_error (wordTerm_of_noTerm noTerm)
  | noOperator offers noSeparator noOperator =>
      rw [readToken_of_offers offers noSeparator]
      simp only [readOperator, noOperator]
      rfl

/-- Reading a token is doing what it does in the phase. -/
theorem Does.run_eq {deed : Deed} (does : Does settings session enclosure token phase deed) :
    readToken settings enclosure token phase session = deed.run settings session := by
  cases does with
  | turns leads => exact leads.run_eq
  | refuses refuses => exact refuses.run_eq
  | pushes offers stands =>
      rw [readToken_of_offers offers (Token.plain_of_binary? stands).separator]
      simp only [readOperator, stands]
      rfl
  | declares keyword identifier =>
      simp only [readToken, (Token.plain_of_isIdentifier identifier).separator, Bool.false_eq_true,
        if_false, readName_eq, identifier, if_true]
      rfl
  | concludes separator =>
      simp only [readToken, separator, if_true]
      rfl

theorem exists_yields_or_operator_or_unfinished (settings : Settings σ) (session : Session σ)
    (next : Option Token) (phase : Phase) :
    (∃ value, phase.Yields value) ∨ (∃ pending term, phase = .operator pending term) ∨
      ∃ failure, phase.Unfinished settings session next failure := by
  cases phase with
  | statement last => exact Or.inl ⟨_, .statement last⟩
  | naming keyword => exact Or.inr (Or.inr ⟨_, .naming keyword⟩)
  | named name => exact Or.inl ⟨_, .named name⟩
  | operand pending unary =>
      rcases unary with _ | ⟨operator, outer⟩
      · rcases pending with _ | ⟨top, outer⟩
        · exact Or.inr (Or.inr ⟨_, .nothing⟩)
        · exact Or.inr (Or.inr ⟨_, .binary top outer⟩)
      · exact Or.inr (Or.inr ⟨_, .unary pending operator outer⟩)
  | operator pending term => exact Or.inr (Or.inl ⟨pending, term, rfl⟩)
  | block value location => exact Or.inl ⟨_, .block value location⟩

/-- Where an operand may stand, a token does something. -/
theorem exists_does_of_awaits (awaits : phase.Awaits enclosure token.binary? pending unary)
    (noSeparator : token.isSeparator = false) :
    ∃ deed, Does settings session enclosure token phase deed := by
  by_cases keyword : phase.Begins enclosure token.binary? ∧ token.isLet = true
  · exact ⟨_, .turns (.keyword keyword.2 keyword.1)⟩
  have noKeyword (begins : phase.Begins enclosure token.binary?) : token.isLet = false :=
    Bool.eq_false_iff.mpr fun isLet => keyword ⟨begins, isLet⟩
  cases kind : token.kind with
  | string => exact ⟨_, .turns (.string awaits kind)⟩
  | word =>
      rcases isTerm_or_noTerm settings session token with ⟨term, isTerm⟩ | ⟨failure, noTerm⟩
      · exact ⟨_, .turns (.word awaits kind isTerm)⟩
      · exact ⟨_, .refuses (.word awaits kind noKeyword noTerm)⟩
  | punctuation =>
      cases unary : token.unary? with
      | some operator => exact ⟨_, .turns (.unary awaits kind (Option.isSome_of_eq_some unary))⟩
      | none =>
          cases binary : token.binary? with
          | some operator =>
              exact ⟨_, .refuses (.illegal awaits kind unary (Option.isSome_of_eq_some binary))⟩
          | none => exact ⟨_, .refuses (.unknown awaits noSeparator kind unary binary)⟩

theorem exists_does_of_offers
    (offers : phase.Offers settings session token.binary? pending term)
    (noSeparator : token.isSeparator = false) :
    ∃ deed, Does settings session enclosure token phase deed := by
  cases binary : token.binary? with
  | some operator => exact ⟨_, .pushes offers binary⟩
  | none => exact ⟨_, .refuses (.noOperator offers noSeparator binary)⟩

theorem exists_does (settings : Settings σ) (session : Session σ) (enclosure : Enclosure)
    (token : Token) (phase : Phase) :
    ∃ deed, Does settings session enclosure token phase deed := by
  cases separator : token.isSeparator with
  | true =>
      rcases exists_yields_or_operator_or_unfinished settings session (some token) phase with
        ⟨value, yields⟩ | ⟨pending, term, rfl⟩ | ⟨failure, unfinished⟩
      · cases enclosure with
        | statements => exact ⟨_, .turns (.ends separator yields rfl)⟩
        | parenthesis group => exact ⟨_, .refuses (.ends separator yields rfl)⟩
      · exact ⟨_, .concludes separator⟩
      · exact ⟨_, .refuses (.unfinished separator unfinished)⟩
  | false =>
      cases phase with
      | statement last => exact exists_does_of_awaits (.begins (.first last)) separator
      | naming keyword =>
          cases identifier : token.isIdentifier with
          | true => exact ⟨_, .declares keyword identifier⟩
          | false => exact ⟨_, .refuses (.unnamed separator identifier)⟩
      | named name =>
          rcases isTerm_or_noTerm settings session name with ⟨term, isTerm⟩ | ⟨failure, noTerm⟩
          · exact exists_does_of_offers (.named isTerm) separator
          · exact ⟨_, .refuses (.name separator noTerm)⟩
      | operand pending unary => exact exists_does_of_awaits (.operand pending unary) separator
      | operator pending term => exact exists_does_of_offers (.operator pending term) separator
      | block value location =>
          cases binary : token.binary? with
          | some operator =>
              have follows := Option.isSome_of_eq_some binary
              exact exists_does_of_offers (.block value location follows) separator
          | none =>
              cases enclosure with
              | statements =>
                  exact exists_does_of_awaits (.begins (.next value location rfl binary)) separator
              | parenthesis group => exact ⟨_, .refuses (.behindBlock separator binary rfl)⟩

theorem beforeBracket_of_awaits (awaits : phase.Awaits enclosure none pending unary) :
    beforeBracket settings enclosure token phase = pure (pending, unary) := by
  cases awaits with
  | begins begins =>
      cases begins with
      | first last => rfl
      | next value location inStatements noOperator =>
          subst inStatements
          rfl
  | operand pending unary => rfl

theorem Bars.run_eq {failure : Failure}
    (bars : Bars settings session enclosure token phase failure) :
    beforeBracket settings enclosure token phase session = .error failure session := by
  cases bars with
  | naming keyword => rfl
  | name noTerm => exact bind_of_error (wordTerm_of_noTerm noTerm)
  | noOperator offers =>
      cases offers with
      | operator pending term => rfl
      | named isTerm => exact bind_of_ok (wordTerm_of_isTerm isTerm)
      | block value location follows => cases follows
  | behindBlock inside =>
      subst inside
      rfl

theorem exists_awaits_or_bars (settings : Settings σ) (session : Session σ)
    (enclosure : Enclosure) (opener : Token) (phase : Phase) :
    (∃ pending unary, phase.Awaits enclosure none pending unary) ∨
      ∃ failure, Bars settings session enclosure opener phase failure := by
  cases phase with
  | statement last => exact Or.inl ⟨_, _, .begins (.first last)⟩
  | naming keyword => exact Or.inr ⟨_, .naming keyword⟩
  | named name =>
      rcases isTerm_or_noTerm settings session name with ⟨term, isTerm⟩ | ⟨failure, noTerm⟩
      · exact Or.inr ⟨_, .noOperator (.named isTerm)⟩
      · exact Or.inr ⟨_, .name noTerm⟩
  | operand pending unary => exact Or.inl ⟨_, _, .operand pending unary⟩
  | operator pending term => exact Or.inr ⟨_, .noOperator (.operator pending term)⟩
  | block value location =>
      cases enclosure with
      | statements => exact Or.inl ⟨_, _, .begins (.next value location rfl rfl)⟩
      | parenthesis group => exact Or.inr ⟨_, .behindBlock rfl⟩

theorem afterBracket_eq (settings : Settings σ) (bracket : Bracket) (pending : List Pending)
    (unary : List Token) (value : Value) (location : Location) (session : Session σ) :
    afterBracket settings bracket pending unary value location session =
      .ok (.closing (session.site settings) bracket pending unary value location) session := by
  have wrapped : (do return .operator pending (← wrap settings unary (.value value location))
      : Eval σ Phase) session = _ :=
    bind_of_ok (wrap_eq settings unary (.value value location) session)
  cases bracket with
  | round => exact wrapped
  | curly =>
      rcases pending with _ | ⟨top, outer⟩
      · rcases unary with _ | ⟨operator, others⟩
        · rfl
        · exact wrapped
      · exact wrapped

end Doing

section Ensuring

variable {settings : Settings σ} {session : Session σ} {enclosure : Enclosure} {token : Token}
  {phase : Phase} {fails : Failure → Session σ → Prop}

/-- What holds whatever a token does holds when it is read. -/
theorem Ensures.readToken {returns : Phase → Session σ → Prop}
    (holds : ∀ deed, Does settings session enclosure token phase deed →
      Ensures (deed.run settings) session returns fails) :
    Ensures (readToken settings enclosure token phase) session returns fails := by
  rcases exists_does settings session enclosure token phase with ⟨deed, does⟩
  rw [Ensures, does.run_eq]
  exact holds deed does

theorem Ensures.finish {next : Option Token} {returns : Value → Session σ → Prop}
    (yields : ∀ value, phase.Yields value → returns value session)
    (unfinished : ∀ failure, phase.Unfinished settings session next failure →
      fails failure session)
    (collapses : ∀ pending term, phase = .operator pending term →
      Ensures (collapse settings pending term) session returns fails) :
    Ensures (finish settings next phase) session returns fails := by
  rcases exists_yields_or_operator_or_unfinished settings session next phase with
    ⟨value, isValue⟩ | ⟨pending, term, rfl⟩ | ⟨failure, isUnfinished⟩
  · rw [finish_of_yields isValue]
    exact yields value isValue
  · exact collapses pending term rfl
  · rw [Ensures, finish_of_unfinished isUnfinished]
    exact unfinished failure isUnfinished

theorem Ensures.beforeBracket {returns : List Pending × List Token → Session σ → Prop}
    (awaits : ∀ pending unary, phase.Awaits enclosure none pending unary →
      returns (pending, unary) session)
    (bars : ∀ failure, Bars settings session enclosure token phase failure →
      fails failure session) :
    Ensures (beforeBracket settings enclosure token phase) session returns fails := by
  rcases exists_awaits_or_bars settings session enclosure token phase with
    ⟨pending, unary, isAwaiting⟩ | ⟨failure, isBarred⟩
  · rw [beforeBracket_of_awaits isAwaiting]
    exact awaits pending unary isAwaiting
  · rw [Ensures, isBarred.run_eq]
    exact bars failure isBarred

@[simp]
theorem ensures_afterBracket (bracket : Bracket) (pending : List Pending) (unary : List Token)
    (value : Value) (location : Location) {returns : Phase → Session σ → Prop} :
    Ensures (afterBracket settings bracket pending unary value location) session returns fails ↔
      returns (.closing (session.site settings) bracket pending unary value location) session := by
  rw [Ensures, afterBracket_eq]

end Ensuring

end Eval

end BlockCalc
