import BlockCalc.Proofs.Reach
import BlockCalc.Proofs.Tokenization
import BlockCalc.Proofs.Unhandled
import BlockCalc.Proofs.Unmatched
import Mathlib.Data.Nat.Digits.Defs
import Mathlib.Tactic.IntervalCases

/-!
# What integer literals are worth

An integer literal has a base, which the mark at its start tells, and digits, which are what follows
the mark without the underscores. The digits write a number, most significant digit first, if each
of them is a digit of the base. The literal is worth that number if a word can hold it. It is
invalid if there are no digits, if one is wrong, or if the number is too great. The digits of a
decimal literal are counted before they are converted, leading zeros included, and too many of them
are a failure of its own.
-/

namespace BlockCalc

namespace Literal

/-- The base that the mark at the start of a literal tells. -/
def base (text : List Char) : Nat :=
  if text.take 2 ∈ [['0', 'x'], ['0', 'X']] then 16
  else if text.take 2 ∈ [['0', 'b'], ['0', 'B']] then 2
  else 10

/-- The characters behind the mark of a literal, without the underscores. -/
def digits (text : List Char) : List Char :=
  (if base text = 10 then text else text.drop 2).filter (· ≠ '_')

/-- The character writes a value as a digit of a base, where letters may be of either case. -/
def IsDigit (base : Nat) (character : Char) (value : Nat) : Prop :=
  value < base ∧ (character = Nat.digitChar value ∨ character = (Nat.digitChar value).toUpper)

instance (base : Nat) (character : Char) (value : Nat) : Decidable (IsDigit base character value) :=
  inferInstanceAs (Decidable (_ ∧ _))

/-- Every character is a digit of a base. -/
def Legal (base : Nat) (written : List Char) : Prop :=
  ∀ character ∈ written, ∃ value, IsDigit base character value

/-- The characters write a number in a base, the most significant digit first. -/
def Denotes (base : Nat) (written : List Char) (number : Nat) : Prop :=
  ∃ values, List.Forall₂ (IsDigit base) written values ∧ number = Nat.ofDigits base values.reverse

/-- There are not too many digits for a conversion. -/
def Convertible (base : Nat) (written : List Char) : Prop :=
  base = 10 → written.length ≤ 4300

/-- The literal writes a number with digits that there are not too many of. -/
structure Writes (text : List Char) (number : Nat) : Prop where
  nonempty : digits text ≠ []
  denotes : Denotes (base text) (digits text) number
  convertible : Convertible (base text) (digits text)

theorem splitBase_eq (text : List Char) :
    splitBase text = (base text, if base text = 10 then text else text.drop 2) := by
  simp only [splitBase]
  split
  case h_5 noHex noHex' noBinary noBinary' =>
    have decimal : base text = 10 := by
      rcases text with _ | ⟨first, _ | ⟨second, rest⟩⟩
      · rfl
      · simp [base]
      · have hexadecimal : [first, second] ∉ [['0', 'x'], ['0', 'X']] := by
          simp only [List.mem_cons, List.cons.injEq, and_true, List.not_mem_nil, or_false, not_or,
            not_and]
          exact ⟨fun zero mark => noHex rest (by rw [zero, mark]),
            fun zero mark => noHex' rest (by rw [zero, mark])⟩
        have binary : [first, second] ∉ [['0', 'b'], ['0', 'B']] := by
          simp only [List.mem_cons, List.cons.injEq, and_true, List.not_mem_nil, or_false, not_or,
            not_and]
          exact ⟨fun zero mark => noBinary rest (by rw [zero, mark]),
            fun zero mark => noBinary' rest (by rw [zero, mark])⟩
        simp only [base, List.take_succ_cons, List.take_zero, hexadecimal, binary, if_false]
    simp only [decimal, if_true]
  all_goals simp [base]

theorem base_le (text : List Char) : base text ≤ 16 := by
  simp only [base]
  split
  · exact le_rfl
  · split <;> decide

theorem digit?_digitChar {value : Nat} (small : value < 16) :
    digit? 16 (Nat.digitChar value) = some value ∧
      digit? 16 (Nat.digitChar value).toUpper = some value := by
  have all : ∀ value < 16, digit? 16 (Nat.digitChar value) = some value ∧
      digit? 16 (Nat.digitChar value).toUpper = some value := by decide
  exact all value small

theorem digit?_eq_some_iff {base : Nat} (small : base ≤ 16) {character : Char} {value : Nat} :
    digit? base character = some value ↔ IsDigit base character value := by
  have greater : digit? base character = some value ↔
      digit? 16 character = some value ∧ value < base := by
    simp only [digit?, Option.filter_eq_some_iff, decide_eq_true_eq]
    grind
  rw [greater]
  constructor
  · rintro ⟨isDigit, below⟩
    refine ⟨below, ?_⟩
    simp only [digit?, Option.filter_eq_some_iff, decide_eq_true_eq] at isDigit
    rcases isDigit with ⟨valued, hexadecimal⟩
    rw [← Char.ofNat_toNat character]
    generalize character.toNat = code at valued
    split_ifs at valued with decimal lower upper
    all_goals
      simp only [Option.some.injEq] at valued
      subst valued
    · rcases decimal with ⟨least, greatest⟩
      interval_cases code <;> decide
    · rcases lower with ⟨least, greatest⟩
      interval_cases code <;> decide
    · rcases upper with ⟨least, greatest⟩
      interval_cases code <;> decide
  · rintro ⟨below, rfl | rfl⟩
    · exact ⟨(digit?_digitChar (below.trans_le small)).1, below⟩
    · exact ⟨(digit?_digitChar (below.trans_le small)).2, below⟩

theorem mapM_digit?_eq_some_iff {base : Nat} (small : base ≤ 16) {written : List Char}
    {values : List Nat} :
    written.mapM (digit? base) = some values ↔ List.Forall₂ (IsDigit base) written values := by
  induction written generalizing values with
  | nil => cases values <;> simp
  | cons first rest ih =>
      simp only [List.mapM_cons, Option.bind_eq_bind, Option.bind_eq_some_iff, Option.pure_def,
        Option.some.injEq, List.forall₂_cons_left_iff, digit?_eq_some_iff small, ih]
      grind

theorem mapM_digit?_eq_none {base : Nat} (small : base ≤ 16) {written : List Char}
    {wrong : Char} (mem : wrong ∈ written) (illegal : ∀ value, ¬IsDigit base wrong value) :
    written.mapM (digit? base) = none := by
  rw [Option.eq_none_iff_forall_not_mem]
  intro values converted
  have digits := (mapM_digit?_eq_some_iff small).mp converted
  rcases List.forall₂_iff_get.mp digits with ⟨sameLength, each⟩
  rcases List.get_of_mem mem with ⟨index, rfl⟩
  exact illegal _ (each index index.isLt (sameLength ▸ index.isLt))

theorem exists_values {base : Nat} {written : List Char}
    (legal : Legal base written) :
    ∃ values, List.Forall₂ (IsDigit base) written values := by
  induction written with
  | nil => exact ⟨[], .nil⟩
  | cons first rest ih =>
      rcases List.forall_mem_cons.mp legal with ⟨⟨value, isDigit⟩, restLegal⟩
      rcases ih restLegal with ⟨values, isRest⟩
      exact ⟨value :: values, .cons isDigit isRest⟩

theorem ofDigits_eq (base : Nat) (values : List Nat) :
    Text.ofDigits base values = Nat.ofDigits base values.reverse := by
  rw [Nat.ofDigits_eq_foldr, List.foldr_reverse, Text.ofDigits]
  congr 1
  funext number value
  simp only [Nat.cast_id]
  ring

section Integer

variable {text : String}

/-- A literal of which a digit is missing or wrong. -/
theorem integer_of_illegal (illegal : digits text.toList = [] ∨
    ¬Legal (base text.toList) (digits text.toList)) : integer text = .error .invalid := by
  simp only [integer, splitBase_eq]
  rcases illegal with missing | illegal
  · rw [← digits, missing]
    rfl
  · simp only [Legal, not_forall, not_exists] at illegal
    rcases illegal with ⟨wrong, mem, illegal⟩
    rw [← digits, mapM_digit?_eq_none (base_le text.toList) mem illegal]

theorem integer_of_values {values : List Nat} (nonempty : digits text.toList ≠ [])
    (legal : List.Forall₂ (IsDigit (base text.toList)) (digits text.toList) values) :
    integer text =
      if base text.toList = 10 ∧ 4300 < (digits text.toList).length then
        .error (.tooLong (digits text.toList).length)
      else if 2147483647 < Nat.ofDigits (base text.toList) values.reverse then .error .invalid
      else .ok ((Nat.ofDigits (base text.toList) values.reverse : Nat) : Int) := by
  have converted := (mapM_digit?_eq_some_iff (base_le text.toList)).mpr legal
  have sameLength : (digits text.toList).length = values.length := legal.length_eq
  have greatest : Word.greatest = ((2147483647 : Nat) : Int) := rfl
  simp only [integer, splitBase_eq, ofDigits_eq, greatest, Int.ofNat_lt, Text.numeralLimit]
  rw [← digits, converted, sameLength]
  rcases values with _ | ⟨first, rest⟩
  · exact absurd (List.eq_nil_of_length_eq_zero sameLength) nonempty
  · rfl

theorem Writes.integer_eq {number : Nat} (writes : Writes text.toList number) :
    integer text = if 2147483647 < number then .error .invalid else .ok (number : Int) := by
  rcases writes.denotes with ⟨values, legal, rfl⟩
  have short : ¬(base text.toList = 10 ∧ 4300 < (digits text.toList).length) :=
    fun ⟨decimal, long⟩ => absurd (writes.convertible decimal) (Nat.not_le.mpr long)
  rw [integer_of_values writes.nonempty legal, if_neg short]

theorem integer_of_overlong (legal : Legal (base text.toList) (digits text.toList))
    (overlong : ¬Convertible (base text.toList) (digits text.toList)) :
    integer text = .error (.tooLong (digits text.toList).length) := by
  simp only [Convertible, Classical.not_imp, not_le] at overlong
  rcases exists_values legal with ⟨values, isDigits⟩
  have nonempty : digits text.toList ≠ [] := List.ne_nil_of_length_pos (by omega)
  rw [integer_of_values nonempty isDigits, if_pos overlong]

end Integer

end Literal

variable {σ : Type} {settings : Settings σ}

/-- What is read next has to be an operand. -/
def Moment.ExpectsOperand (moment : Moment σ) : Prop :=
  match moment.phase with
  | .statement _ => True
  | .operand _ _ => True
  | .block _ _ => match moment.enclosure with
      | .statements => True
      | .parenthesis _ => False
  | _ => False

namespace Token

/-- The token is an operand that stands for an integer, and alone it is a program for it. -/
structure Evaluates (settings : Settings σ) (token : Token) (number : Int) : Prop where
  operand (session : Session σ) :
    Eval.wordTerm settings token session =
      .ok (.value (.integer number) (token.location settings.fileName session.source)) session
  alone {session : Session σ} {text : String}
    (waiting : (session.feed text).lexer.tokens = [token]) :
    (session.parse settings text).1 = .ok (.integer number)

/-- The token is no operand, and an evaluation that comes to it where one is due fails. -/
structure Fails (settings : Settings σ) (token : Token) (cause : Cause) : Prop where
  operand (session : Session σ) :
    ∃ location, Eval.wordTerm settings token session = .error { cause, location } session
  anywhere {session : Session σ} {text : String} {moment : Moment σ} {rest : Forest}
    (comes : session.Comes settings text moment) (next : moment.ahead = .leaf token rest)
    (expects : moment.ExpectsOperand) :
    ∃ failure after, session.parse settings text = (.error failure, after) ∧ failure.cause = cause

end Token

namespace Eval

variable {token : Token}

/-- Where an operand is due before a word, one may stand there. -/
theorem exists_awaits_of_expects {moment : Moment σ} (expects : moment.ExpectsOperand) :
    ∃ pending unary, moment.phase.Awaits moment.enclosure none pending unary := by
  rcases moment with ⟨enclosure, phase, ahead, session⟩
  simp only [Moment.ExpectsOperand] at expects
  cases phase with
  | statement last => exact ⟨[], [], .begins (.first last)⟩
  | operand pending unary => exact ⟨pending, unary, .operand pending unary⟩
  | block value location =>
      cases enclosure with
      | parenthesis group => exact expects.elim
      | statements => exact ⟨[], [], .begins (.next value location rfl rfl)⟩
  | _ => exact expects.elim

/-- Where an operand is due, a word that is none ends the reading. -/
theorem exists_read_of_noTerm (word : token.kind = .word) (noLet : token.isLet = false)
    {moment : Moment σ} (expects : moment.ExpectsOperand) {rest : Forest}
    (next : moment.ahead = .leaf token rest) {failure : Failure}
    (noTerm : token.NoTerm settings
      { moment.session with position := moment.session.position + 1 } failure) :
    ∃ stopped, read settings moment.enclosure moment.ahead moment.phase moment.session =
      .error failure stopped := by
  have noBinary : token.binary? = none := by simp [token.binary?_eq, word]
  rcases exists_awaits_of_expects expects with ⟨pending, unary, awaits⟩
  rw [← noBinary] at awaits
  have refuses := Refuses.word awaits word (fun _ => noLet) noTerm
  rw [next, read_leaf, bind_of_ok (advance_eq_ok moment.session)]
  exact ⟨_, bind_of_error refuses.run_eq⟩

end Eval

namespace Token

variable {token : Token}

theorem Fails.of_noTerm (quiet : settings.hooks = .none) (word : token.kind = .word)
    (noLet : token.isLet = false) {cause : Cause}
    (noTerm : ∀ session : Session σ, ∃ location,
      token.NoTerm settings session { cause, location }) :
    token.Fails settings cause where
  operand session := by
    rcases noTerm session with ⟨location, noTerm⟩
    exact ⟨location, Eval.wordTerm_of_noTerm noTerm⟩
  anywhere {session text moment rest} comes next expects := by
    rcases noTerm { moment.session with position := moment.session.position + 1 } with
      ⟨location, noTerm⟩
    rcases Eval.exists_read_of_noTerm word noLet expects next noTerm with ⟨stopped, failed⟩
    exact ⟨_, _, comes.parse_of_error quiet failed, rfl⟩

theorem Fails.of_invalid (quiet : settings.hooks = .none) (word : token.kind = .word)
    (starts : token.startsWithDigit = true)
    (invalid : Literal.integer token.text = .error .invalid) :
    token.Fails settings (.invalidInteger token.text) :=
  of_noTerm quiet word (isLet_eq_false_of_startsWithDigit starts) fun _ =>
    ⟨_, .invalid starts invalid⟩

theorem Fails.of_tooLong (quiet : settings.hooks = .none) (word : token.kind = .word)
    (starts : token.startsWithDigit = true) {count : Nat}
    (tooLong : Literal.integer token.text = .error (.tooLong count)) :
    token.Fails settings (.unhandled (.tooManyDigits count)) :=
  of_noTerm quiet word (isLet_eq_false_of_startsWithDigit starts) fun _ =>
    ⟨_, .tooLong starts tooLong⟩

theorem Evaluates.of_integer (quiet : settings.hooks = .none) (word : token.kind = .word)
    (starts : token.startsWithDigit = true) {number : Int}
    (valid : Literal.integer token.text = .ok number) :
    token.Evaluates settings number := by
  have isTerm (session : Session σ) : token.IsTerm settings session _ := .number starts valid
  refine ⟨fun session => Eval.wordTerm_of_isTerm (isTerm session), ?_⟩
  intro session text waiting
  have found : Forest.ofTokens (session.feed text).lexer.tokens = .ok (.leaf token .nil) := by
    rw [waiting, Forest.ofTokens_eq_ok_iff]
    simp [Forest.Matched, Forest.tokens, Token.opens?, Token.closes?, word]
  rcases Session.parse_of_forest quiet found with ⟨log, sameRun⟩
  have ran (start : Session σ) : ∃ finished,
      Eval.statements settings (.leaf token .nil) start = .ok (.integer number) finished := by
    let advanced : Session σ := { start with position := start.position + 1 }
    have leads : Eval.Leads settings advanced .statements token (.statement .void) _ :=
      .word (.begins (.first .void)) word (isTerm advanced)
    exact ⟨advanced, Eval.bind_of_ok (Eval.read_leaf_of_ok leads.run_eq .nil)⟩
  rcases ran { (session.feed text).prepare with log } with ⟨finished, ran⟩
  rw [sameRun, ran]

end Token

namespace Literal

/-- The bases, each with the marks that tell them. -/
def marks : List (Nat × List Char) :=
  [(10, []), (16, ['0', 'x']), (16, ['0', 'X']), (2, ['0', 'b']), (2, ['0', 'B'])]

/--
The mark and what is behind it are a literal for a number: its digits in the base, with zeros in
front and underscores anywhere as long as a digit comes first.
-/
structure Spells (base : Nat) (mark written : List Char) (number : Nat) : Prop where
  marked : (base, mark) ∈ marks
  starts : ∃ first rest, mark ++ written = first :: rest ∧ first.isDigit = true
  nonempty : written.filter (· ≠ '_') ≠ []
  spelled : ∃ zeros, List.Forall₂ (IsDigit base) (written.filter (· ≠ '_'))
    (List.replicate zeros 0 ++ (Nat.digits base number).reverse)
  convertible : Convertible base (written.filter (· ≠ '_'))

theorem IsDigit.ne_mark {character : Char} {value : Nat} (isDigit : IsDigit 10 character value) :
    character ∉ ['x', 'X', 'b', 'B'] := by
  rcases isDigit with ⟨small, written⟩
  interval_cases value <;> rcases written with rfl | rfl <;> decide

theorem IsDigit.word {base : Nat} (small : base ≤ 16) {character : Char} {value : Nat}
    (isDigit : IsDigit base character value) : CharClass.of character = .word := by
  rcases isDigit with ⟨below, written⟩
  have below : value < 16 := below.trans_le small
  interval_cases value <;> rcases written with rfl | rfl <;> decide

/-- The characters that are no digits of a numeral with a base are underscores. -/
theorem exists_isDigit_of_mem {base : Nat} {written : List Char} {values : List Nat}
    (spells : List.Forall₂ (IsDigit base) (written.filter (· ≠ '_')) values) {character : Char}
    (mem : character ∈ written) : character = '_' ∨ ∃ value, IsDigit base character value := by
  by_cases underscore : character = '_'
  · exact Or.inl underscore
  · have mem : character ∈ written.filter (· ≠ '_') := by simp [mem, underscore]
    rcases List.get_of_mem mem with ⟨index, rfl⟩
    rcases List.forall₂_iff_get.mp spells with ⟨sameLength, each⟩
    exact Or.inr ⟨_, each index index.isLt (sameLength ▸ index.isLt)⟩

theorem base_append {base : Nat} {mark written : List Char} (marked : (base, mark) ∈ marks)
    {values : List Nat}
    (spells : List.Forall₂ (IsDigit base) (written.filter (· ≠ '_')) values) :
    Literal.base (mark ++ written) = base ∧
      digits (mark ++ written) = written.filter (· ≠ '_') := by
  simp only [marks, List.mem_cons, Prod.mk.injEq, List.not_mem_nil, or_false] at marked
  rcases marked with ⟨rfl, rfl⟩ | ⟨rfl, rfl⟩ | ⟨rfl, rfl⟩ | ⟨rfl, rfl⟩ | ⟨rfl, rfl⟩
  case inl =>
    have decimal : Literal.base written = 10 := by
      rcases written with _ | ⟨first, _ | ⟨second, rest⟩⟩
      · rfl
      · simp [Literal.base]
      · have noMark : second ∉ ['x', 'X', 'b', 'B'] := by
          have mem : second ∈ first :: second :: rest := by simp
          rcases exists_isDigit_of_mem spells mem with rfl | ⟨value, isDigit⟩
          · decide
          · exact isDigit.ne_mark
        simp only [List.mem_cons, List.not_mem_nil, or_false, not_or] at noMark
        simp [Literal.base, noMark]
    exact ⟨decimal, by simp [digits, decimal]⟩
  all_goals exact ⟨by simp [Literal.base], by simp [digits, Literal.base]⟩

section Spells

variable {base : Nat} {mark written : List Char} {number : Nat}

theorem Spells.base_le (spells : Spells base mark written number) : base ≤ 16 := by
  have all : ∀ pair ∈ marks, pair.1 ≤ 16 := by decide
  exact all _ spells.marked

theorem Spells.writes (spells : Spells base mark written number) :
    Writes (mark ++ written) number := by
  rcases spells.spelled with ⟨zeros, spelled⟩
  rcases base_append spells.marked spelled with ⟨sameBase, sameDigits⟩
  refine ⟨sameDigits ▸ spells.nonempty, ?_, ?_⟩
  · rw [sameBase, sameDigits]
    refine ⟨_, spelled, ?_⟩
    rw [List.reverse_append, List.reverse_reverse, List.reverse_replicate,
      Nat.ofDigits_append_replicate_zero, Nat.ofDigits_digits]
  · rw [sameBase, sameDigits]
    exact spells.convertible

theorem Spells.words (spells : Spells base mark written number) :
    ∀ character ∈ mark ++ written, CharClass.of character = .word := by
  intro character mem
  rcases List.mem_append.mp mem with inMark | inWritten
  · have all : marks.all fun pair => pair.2.all (CharClass.of · = .word) := rfl
    have marked := List.all_eq_true.mp all _ spells.marked
    exact of_decide_eq_true (List.all_eq_true.mp marked character inMark)
  · rcases spells.spelled with ⟨_, spelled⟩
    rcases exists_isDigit_of_mem spelled inWritten with rfl | ⟨value, isDigit⟩
    · decide
    · exact isDigit.word spells.base_le

end Spells

end Literal

/-- A text of word characters alone is a single token. -/
theorem scan_words {text : List Char} (words : ∀ character ∈ text, CharClass.of character = .word)
    {last : Char} (word : CharClass.of last = .word) (before : List Char)
    (start position : Position) :
    (scan .code ⟨last :: before, start⟩ position text).1 =
      Lexeme.tokens ⟨text.reverse ++ last :: before, start⟩ .code := by
  induction text generalizing last before position with
  | nil => rfl
  | cons character rest ih =>
      rcases List.forall_mem_cons.mp words with ⟨isWord, restWords⟩
      have noSlash : character ≠ '/' := by rintro rfl; cases isWord
      have noQuote : character ≠ '"' := by rintro rfl; cases isWord
      have joins : Lexeme.joins ⟨last :: before, start⟩ character = true := by
        simp only [Lexeme.joins, isWord, word]
      rw [scan_code_of_no_comment (fun _ slash _ => noSlash slash) (fun _ slash _ => noSlash slash)]
      simp only [isWord, noQuote, joins, if_true, if_false, reduceCtorEq, Lexeme.push]
      rw [ih restWords isWord (last :: before), List.reverse_cons, List.append_assoc,
        List.singleton_append]

theorem Lexer.newTokens_word {text : List Char} (nonempty : text ≠ [])
    (words : ∀ character ∈ text, CharClass.of character = .word) (lexer : Lexer) :
    ∃ token, lexer.newTokens (String.ofList text) = [token] ∧ token.kind = .word ∧
      token.text.toList = text := by
  rcases text with _ | ⟨first, rest⟩
  · exact absurd rfl nonempty
  · rcases List.forall_mem_cons.mp words with ⟨word, restWords⟩
    have noSlash : first ≠ '/' := by rintro rfl; cases word
    have noQuote : first ≠ '"' := by rintro rfl; cases word
    simp only [newTokens, String.toList_ofList]
    rw [scan_code_of_no_comment (fun _ slash _ => noSlash slash) (fun _ slash _ => noSlash slash)]
    simp only [word, noQuote, if_true, if_false, reduceCtorEq, Lexeme.joins, Lexeme.push,
      Lexeme.single]
    rw [scan_words restWords word]
    have kind : Lexeme.kind ⟨rest.reverse ++ [first], lexer.position⟩ = .word := by
      simp [Lexeme.kind, word]
    have reversed : (rest.reverse ++ [first]).reverse = first :: rest := by simp
    generalize rest.reverse ++ [first] = collected at kind reversed ⊢
    rcases collected with _ | ⟨last, before⟩
    · cases reversed
    · simp only [Lexeme.tokens, reduceCtorEq, if_false, kind, reversed]
      exact ⟨_, rfl, rfl, String.toList_ofList⟩

open Literal in
/--
A word that starts with a digit is read as the number that its digits write, or it fails as an
invalid integer, or as one with too many digits. So every number that fits into a word can be
written in every base, with zeros in front and underscores anywhere.
-/
theorem integer_literals (quiet : settings.hooks = .none) :
    (∀ token : Token, token.kind = .word → token.startsWithDigit = true →
      let text := token.text.toList
      (∀ number ≤ 2147483647, Writes text number → token.Evaluates settings number) ∧
      ((digits text = [] ∨ ¬Legal (base text) (digits text) ∨
          ∃ number, 2147483647 < number ∧ Writes text number) →
        token.Fails settings (.invalidInteger token.text)) ∧
      (Legal (base text) (digits text) → ¬Convertible (base text) (digits text) →
        token.Fails settings (.unhandled (.tooManyDigits (digits text).length)))) ∧
    ∀ session : Session σ, session.lexer.tokens = [] →
      ∀ number ≤ 2147483647, ∀ base mark written, Spells base mark written number →
        (session.parse settings (String.ofList (mark ++ written))).1 = .ok (.integer number) := by
  refine ⟨?_, ?_⟩
  · intro token word starts text
    refine ⟨?_, ?_, ?_⟩
    · intro number fits writes
      have valid : integer token.text = .ok (number : Int) := by
        rw [writes.integer_eq, if_neg (Nat.not_lt.mpr fits)]
      exact .of_integer quiet word starts valid
    · intro cases
      have invalid : integer token.text = .error .invalid := by
        rcases cases with missing | illegal | ⟨number, great, writes⟩
        · exact integer_of_illegal (Or.inl missing)
        · exact integer_of_illegal (Or.inr illegal)
        · rw [writes.integer_eq, if_pos great]
      exact .of_invalid quiet word starts invalid
    · intro legal overlong
      exact .of_tooLong quiet word starts (integer_of_overlong legal overlong)
  · intro session empty number fits base mark written spells
    rcases spells.starts with ⟨first, rest, isText, isDigit⟩
    have nonempty : mark ++ written ≠ [] := by simp [isText]
    rcases session.lexer.newTokens_word nonempty spells.words with ⟨token, fed, word, sameText⟩
    have waiting : (session.feed (String.ofList (mark ++ written))).lexer.tokens = [token] := by
      change session.lexer.tokens ++ _ = _
      rw [empty, List.nil_append]
      exact fed
    have starts : token.startsWithDigit = true := by
      simp only [Token.startsWithDigit, Token.first, sameText, isText, List.head_cons, isDigit]
    have writes : Writes token.text.toList number := sameText ▸ spells.writes
    have valid : integer token.text = .ok (number : Int) := by
      rw [writes.integer_eq, if_neg (Nat.not_lt.mpr fits)]
    exact (Token.Evaluates.of_integer quiet word starts valid).alone waiting

theorem Literal.decimal_zeros (count : Nat) :
    base (List.replicate count '0') = 10 ∧
      digits (List.replicate count '0') = List.replicate count '0' := by
  have decimal : base (List.replicate count '0') = 10 := by
    rcases count with _ | _ | count <;> simp [base, List.replicate_succ]
  refine ⟨decimal, ?_⟩
  rw [digits, if_pos decimal, List.filter_eq_self]
  intro character mem
  rw [List.eq_of_mem_replicate mem]
  decide

open Literal in
theorem integer_literals_of_each_outcome :
    let session : Session Unit := .fresh ()
    let settings : Settings Unit := {}
    (session.parse settings "0x_0fF").1 = .ok (.integer 255) ∧
      (session.parse settings "0_042").1 = .ok (.integer 42) ∧
      Token.Fails settings { kind := .word, text := "0b_12", start := {} }
        (.invalidInteger "0b_12") ∧
      Token.Fails settings (.zeros 4300) (.unhandled (.tooManyDigits 4301)) := by
  intro session settings
  have quiet : settings.hooks = .none := rfl
  have literals := integer_literals quiet
  have hexadecimal : Spells 16 ['0', 'x'] ['_', '0', 'f', 'F'] 255 := by
    have spelled : List.Forall₂ (IsDigit 16) ['0', 'f', 'F'] [0, 15, 15] := by decide
    exact ⟨by decide, ⟨'0', _, rfl, by decide⟩, by decide, ⟨1, by simpa using spelled⟩, nofun⟩
  have decimal : Spells 10 [] ['0', '_', '0', '4', '2'] 42 := by
    have spelled : List.Forall₂ (IsDigit 10) ['0', '0', '4', '2'] [0, 0, 4, 2] := by decide
    exact ⟨by decide, ⟨'0', _, rfl, by decide⟩, by decide, ⟨2, by simpa using spelled⟩,
      fun _ => by decide⟩
  have hexadecimalText : String.ofList (['0', 'x'] ++ ['_', '0', 'f', 'F']) = "0x_0fF" := by decide
  have decimalText : String.ofList ([] ++ ['0', '_', '0', '4', '2']) = "0_042" := by decide
  rw [← hexadecimalText, ← decimalText]
  refine ⟨literals.2 session rfl 255 (by decide) 16 _ _ hexadecimal,
    literals.2 session rfl 42 (by decide) 10 _ _ decimal, ?_, ?_⟩
  · refine (literals.1 { kind := .word, text := "0b_12", start := {} } rfl (by decide)).2.1 ?_
    refine Or.inr (Or.inl fun legal => ?_)
    rcases legal '2' (by decide) with ⟨value, small, written⟩
    have small : value < 2 := small
    interval_cases value <;> rcases written with isDigit | isDigit <;> cases isDigit
  · have overlong : (Token.zeros 4300).Overlong 4301 := Token.overlong_zeros (by decide)
    have text : (Token.zeros 4300).text.toList = List.replicate 4301 '0' := String.toList_ofList
    have fails := (literals.1 (.zeros 4300) rfl overlong.starts).2.2
    rw [text, (decimal_zeros 4301).1, (decimal_zeros 4301).2, List.length_replicate] at fails
    refine fails ?_ fun convertible => ?_
    · intro character mem
      exact ⟨0, by decide, Or.inl (List.eq_of_mem_replicate mem)⟩
    · have short : (List.replicate 4301 '0').length ≤ 4300 := convertible rfl
      rw [List.length_replicate] at short
      exact absurd short (by decide)

end BlockCalc
