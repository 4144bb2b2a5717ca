import BlockCalc.Proofs.Positions
import BlockCalc.Proofs.Refinement

/-!
# What string literals are worth

A string literal is worth the characters between its quotes as they stand in the source. Where the
literal ends is found twice: the lexer looks for the closing quote while it reads, and the value is
what is left of the token when its quotes are taken off again. The two agree, because a double quote
at the end of a token closes it exactly if no backslash stands directly before, also where the
opening quote is all there is and where the source ends before the literal does.
-/

namespace BlockCalc

namespace Literal

/-- Each double quote of a text stands right behind a backslash; `previous` is before the text. -/
def Masked (previous : Char) (body : List Char) : Prop :=
  (previous :: body).IsChain fun left right => right = '"' → left = '\\'

instance (previous : Char) (body : List Char) : Decidable (Masked previous body) :=
  inferInstanceAs (Decidable (List.IsChain _ _))

/--
What follows `previous` inside a literal holds the body of the literal up to the first double quote
that does not stand directly behind a backslash, or up to its end if there is no such quote.
-/
structure Encloses (previous : Char) (following body : List Char) : Prop where
  masked : Masked previous body
  ends : following = body ∨
    (previous :: body).getLast? ≠ some '\\' ∧ ∃ rest, following = body ++ '"' :: rest

theorem masked_cons {previous first : Char} {rest : List Char} :
    Masked previous (first :: rest) ↔ (first = '"' → previous = '\\') ∧ Masked first rest :=
  List.isChain_cons_cons

theorem exists_encloses (previous : Char) (following : List Char) :
    ∃ body, Encloses previous following body := by
  induction following generalizing previous with
  | nil => exact ⟨[], .singleton _, Or.inl rfl⟩
  | cons first rest ih =>
      by_cases closes : first = '"' ∧ previous ≠ '\\'
      · rcases closes with ⟨rfl, noBackslash⟩
        exact ⟨[], .singleton _, Or.inr ⟨by simpa using noBackslash, rest, rfl⟩⟩
      · have mask : first = '"' → previous = '\\' := by simpa using closes
        rcases ih first with ⟨body, masked, ends⟩
        refine ⟨first :: body, masked_cons.mpr ⟨mask, masked⟩, ?_⟩
        rcases ends with rfl | ⟨noBackslash, last, rfl⟩
        · exact Or.inl rfl
        · exact Or.inr ⟨by simpa [List.getLast?_cons_cons] using noBackslash, last, rfl⟩

/-- The lexer reads on over a body to what stands behind it. -/
theorem splitString_append_masked {previous : Char} {body : List Char}
    (masked : Masked previous body) (following : List Char) :
    splitString previous (body ++ following) =
      (body ++ (splitString ((previous :: body).getLast (by simp)) following).1,
        (splitString ((previous :: body).getLast (by simp)) following).2) := by
  induction body generalizing previous with
  | nil => simp
  | cons first rest ih =>
      rcases masked_cons.mp masked with ⟨mask, restMasked⟩
      have goesOn : ¬(first = '"' ∧ previous ≠ '\\') := by simpa using mask
      simp only [List.cons_append, splitString, goesOn, if_false, ih restMasked,
        List.getLast_cons_cons]

/-- The lexer stops behind the first double quote that no backslash masks. -/
theorem splitString_closed {previous : Char} {body : List Char} (masked : Masked previous body)
    (closes : (previous :: body).getLast? ≠ some '\\') (rest : List Char) :
    splitString previous (body ++ '"' :: rest) = (body ++ ['"'], rest) := by
  have nonempty : previous :: body ≠ [] := List.cons_ne_nil _ _
  have noBackslash : (previous :: body).getLast nonempty ≠ '\\' := by
    simpa [List.getLast?_eq_some_getLast nonempty] using closes
  simp only [splitString_append_masked masked, splitString, noBackslash, ne_eq, not_false_eq_true,
    and_self, if_true]

theorem Masked.getLast?_of_quote {previous : Char} {before : List Char}
    (masked : Masked previous (before ++ ['"'])) : (previous :: before).getLast? = some '\\' := by
  have nonempty : previous :: before ≠ [] := List.cons_ne_nil _ _
  have chain : ((previous :: before) ++ ['"']).IsChain
      fun left right => right = '"' → left = '\\' := masked
  rw [List.getLast?_eq_some_getLast nonempty, Option.some.injEq]
  exact (List.isChain_append.mp chain).2.2 _ (List.getLast?_eq_some_getLast nonempty) '"' rfl rfl

theorem stringBody_closed {body : List Char} (closes : ('"' :: body).getLast? ≠ some '\\') :
    stringBody ('"' :: (body ++ ['"'])) = body := by
  have reversed : (body ++ ['"']).reverse = '"' :: body.reverse := by simp
  have isBody : dropClosingQuote ('"' :: body.reverse) = body.reverse := by
    rw [List.getLast?_cons, ← List.head?_reverse] at closes
    cases written : body.reverse with
    | nil => rfl
    | cons last before =>
        have noBackslash : last ≠ '\\' := by simpa [written] using closes
        rw [dropClosingQuote.eq_2]
        rintro rest ⟨⟩
        exact noBackslash rfl
  simp only [stringBody, reversed, isBody, List.reverse_reverse]

/-- A literal without a closing quote does not end with a double quote that would close it. -/
theorem stringBody_masked {body : List Char} (masked : Masked '"' body) :
    stringBody ('"' :: body) = body := by
  have isBody : dropClosingQuote body.reverse = body.reverse := by
    rcases List.eq_nil_or_concat' body with rfl | ⟨before, last, rfl⟩
    · rfl
    · by_cases quote : last = '"'
      · subst quote
        have backslash := masked.getLast?_of_quote
        rcases List.eq_nil_or_concat' before with rfl | ⟨front, mask, rfl⟩
        · cases backslash
        · rw [← List.cons_append, List.getLast?_concat] at backslash
          have isMask : mask = '\\' := Option.some.inj backslash
          simp [isMask, dropClosingQuote]
      · simp [dropClosingQuote, quote]
  simp only [stringBody, isBody, List.reverse_reverse]

/-- What the lexer takes for a literal is worth what the quotes enclose. -/
theorem stringBody_of_encloses {following body : List Char}
    (encloses : Encloses '"' following body) :
    stringBody ('"' :: (splitString '"' following).1) = body := by
  rcases encloses with ⟨masked, rfl | ⟨closes, rest, rfl⟩⟩
  · have toEnd := splitString_append_masked masked []
    rw [List.append_nil] at toEnd
    simp only [toEnd, splitString, List.append_nil, stringBody_masked masked]
  · rw [splitString_closed masked closes, stringBody_closed closes]

end Literal

namespace Token

/--
The token is a string literal of a text that starts at a position: its opening quote stands where
the token starts, and it goes on as far as a literal does.
-/
def Quotes (position : Position) (text : List Char) (token : Token) : Prop :=
  ∃ before following, text = before ++ '"' :: following ∧
    token.start = before.foldl Position.after position ∧
    token.text.toList = '"' :: (splitString '"' following).1

theorem Quotes.behind {position : Position} (skipped : List Char) {rest : List Char} {token : Token}
    (quotes : token.Quotes (skipped.foldl Position.after position) rest) :
    token.Quotes position (skipped ++ rest) := by
  rcases quotes with ⟨before, following, rfl, start, written⟩
  exact ⟨skipped ++ before, following, by simp, by simpa using start, written⟩

end Token

theorem Lexeme.kind_ne_string {lexeme : Lexeme} {token : Token}
    (member : token ∈ lexeme.tokens .code) : token.kind ≠ .string := by
  rcases lexeme with ⟨_ | ⟨last, before⟩, start⟩
  · cases member
  · cases List.mem_singleton.mp member
    simp only [reduceCtorEq, if_false, kind]
    split
    · split <;> simp
    · simp

/-- Every string that scanning finds is a literal of the text that is scanned. -/
theorem quotes_of_mem_scan (text : List Char) (pending : Lexeme) (position : Position)
    {token : Token} (member : token ∈ (scan .code pending position text).1)
    (string : token.kind = .string) : token.Quotes position text := by
  -- What is pending never is a string, so it is left aside wherever it ends.
  have ofFollowing {tokens : List Token} {pending : Lexeme}
      (member : token ∈ pending.tokens .code ++ tokens) : token ∈ tokens :=
    (List.mem_append.mp member).resolve_left fun inPending =>
      Lexeme.kind_ne_string inPending string
  induction text using pieces.induct generalizing pending position with
  | case1 => exact absurd string (Lexeme.kind_ne_string member)
  | case2 rest ih =>
      rw [scan_code_lineComment, scan_lineComment] at member
      have behind : token.Quotes position
          (('/' :: '/' :: rest.takeWhile (· ≠ '\n')) ++ rest.dropWhile (· ≠ '\n')) :=
        (ih _ _ member).behind ('/' :: '/' :: rest.takeWhile (· ≠ '\n'))
      simpa only [List.cons_append, List.takeWhile_append_dropWhile] using behind
  | case3 rest ih =>
      rw [scan_code_blockComment, scan_blockComment] at member
      have behind : token.Quotes position
          (('/' :: '*' :: insideBlockComment rest) ++ afterBlockComment rest) :=
        (ih _ _ member).behind ('/' :: '*' :: insideBlockComment rest)
      simpa only [List.cons_append, insideBlockComment_append_after] using behind
  | case4 rest ih =>
      rcases scan_string '"' [] position (position.after '"') rest with
        ⟨literal, _, written, start, scanned⟩
      rw [scan_code_quote, Lexeme.single, scanned] at member
      rcases List.mem_cons.mp (ofFollowing member) with rfl | later
      · exact ⟨[], rest, rfl, start, written⟩
      · have behind : token.Quotes position
            (('"' :: (splitString '"' rest).1) ++ (splitString '"' rest).2) :=
          (ih _ _ later).behind ('"' :: (splitString '"' rest).1)
        simpa only [List.cons_append, splitString_append_eq] using behind
  | case5 character rest noLine noBlock noQuote space ih =>
      rw [scan_code_of_no_comment noLine noBlock] at member
      simp only [space, if_true] at member
      exact (ih _ _ (ofFollowing member)).behind [character]
  | case6 character rest noLine noBlock noQuote noSpace ih =>
      have noString : character ≠ '"' := noQuote
      rw [scan_code_of_no_comment noLine noBlock] at member
      simp only [noSpace, noString, if_false] at member
      split at member
      · exact (ih _ _ member).behind [character]
      · exact (ih _ _ (ofFollowing member)).behind [character]

/-- Where a string literal is all that waits, the evaluation gives what it is worth. -/
theorem Session.parse_string {σ : Type} {settings : Settings σ} (quiet : settings.hooks = .none)
    {session : Session σ} {text : String} {token : Token} (string : token.kind = .string)
    (waiting : (session.feed text).lexer.tokens = [token]) :
    (session.parse settings text).1 = .ok (Literal.string token.text) := by
  have written : (Tree.atom token).Written := by simp [Tree.Written, string]
  have found : Forest.ofTokens (session.feed text).lexer.tokens = .ok (Tree.atom token).forest :=
    Forest.ofTokens_eq_ok_iff.mpr
      ⟨Tree.matched_forest written, by rw [Tree.tokens_forest, waiting, Tree.tokens]⟩
  have known : ∀ other ∈ (Tree.atom token).tokens, other.kind ≠ .punctuation →
      other.Known session.scope := by
    intro other member _
    cases List.mem_singleton.mp member
    exact .string string
  have value : (Tree.atom token).value? session.scope false = some (Literal.string token.text) := by
    simp [Tree.value?, Token.value?, string]
  rcases parse_of_forest quiet found with ⟨log, parsed⟩
  have spec : Eval.Ensures (Eval.statements settings (Tree.atom token).forest)
      { (session.feed text).prepare with log }
      (fun result _ => (Tree.atom token).value? session.scope false = some result)
      (fun _ _ => (Tree.atom token).value? session.scope false = none) :=
    Eval.ensures_statements_tree quiet written trivial known rfl (Nat.zero_le _)
  rw [parsed]
  cases ran : Eval.statements settings (Tree.atom token).forest
      { (session.feed text).prepare with log } with
  | ok result finished =>
      have evaluated := spec.of_ok ran
      rw [value] at evaluated
      cases evaluated
      rfl
  | error failure stopped =>
      have failed := spec.of_error ran
      rw [value] at failed
      cases failed

/-- A text between quotes. -/
def Literal.quoted (content : String) : String :=
  "\"" ++ content ++ "\""

open Literal in
/-- A text whose double quotes are all masked is a single string between quotes. -/
theorem Lexer.newTokens_quoted {content : String} (masked : Masked '"' content.toList)
    (closes : content.toList.getLast? ≠ some '\\') (lexer : Lexer) :
    ∃ token, lexer.newTokens (quoted content) = [token] ∧ token.kind = .string ∧
      Literal.string token.text = .text content := by
  have closesBehind : ('"' :: content.toList).getLast? ≠ some '\\' := by
    rw [List.getLast?_cons]
    cases last : content.toList.getLast? with
    | none => decide
    | some character => simpa [last] using closes
  have characters : (quoted content).toList = '"' :: (content.toList ++ '"' :: []) := by
    simp [quoted]
  rcases scan_string '"' [] lexer.position (lexer.position.after '"') (content.toList ++ '"' :: [])
    with ⟨token, kind, written, _, scanned⟩
  rw [splitString_closed masked closesBehind] at written scanned
  have text : token.text.toList = '"' :: (content.toList ++ ['"']) := written
  refine ⟨token, ?_, kind, ?_⟩
  · rw [newTokens, characters, scan_code_quote, Lexeme.single, scanned]
    rfl
  · rw [Literal.string, text, stringBody_closed closesBehind, String.ofList_toList]

open Literal in
/--
A string literal is worth the characters of the source behind its opening quote up to the first
double quote without a backslash directly before it, or up to the end of what was fed. So every text
whose double quotes have a backslash before them, and that does not end with one, can be written
between quotes.
-/
theorem string_literals {σ : Type} {settings : Settings σ} (quiet : settings.hooks = .none) :
    (∀ (lexer : Lexer) (text : String), ∀ token ∈ lexer.newTokens text, token.kind = .string →
      ∃ before following body, text.toList = before ++ '"' :: following ∧
        token.start = before.foldl Position.after lexer.position ∧
        Encloses '"' following body ∧
        Literal.string token.text = .text (String.ofList body)) ∧
    ∀ content : String, Masked '"' content.toList → content.toList.getLast? ≠ some '\\' →
      (∃ token, Lexer.fresh.newTokens (quoted content) = [token] ∧
        token.kind = .string ∧ Literal.string token.text = .text content) ∧
      ∀ session : Session σ, session.lexer.tokens = [] →
        (session.parse settings (quoted content)).1 = .ok (.text content) := by
  refine ⟨?_, ?_⟩
  · intro lexer text token member isString
    rcases quotes_of_mem_scan text.toList {} lexer.position member isString with
      ⟨before, following, source, start, written⟩
    rcases exists_encloses '"' following with ⟨body, encloses⟩
    refine ⟨before, following, body, source, start, encloses, ?_⟩
    rw [Literal.string, written, stringBody_of_encloses encloses]
  · intro content masked closes
    refine ⟨Lexer.newTokens_quoted masked closes Lexer.fresh, ?_⟩
    intro session empty
    rcases Lexer.newTokens_quoted masked closes session.lexer with ⟨token, fed, isString, worth⟩
    have waiting : (session.feed (quoted content)).lexer.tokens = [token] := by
      change session.lexer.tokens ++ _ = _
      rw [empty, List.nil_append]
      exact fed
    rw [Session.parse_string quiet isString waiting, worth]

open Literal in
theorem string_literals_with_masked_quotes :
    let text := "1 + /*\"*/\n\"a\\\"b\\\" // c"
    let token : Token :=
      { kind := .string, text := "\"a\\\"b\\\" // c", start := { line := 2 } }
    let session : Session Unit := .fresh ()
    Lexer.fresh.newTokens text = [
        { kind := .word, text := "1", start := {} },
        { kind := .punctuation, text := "+", start := { column := 3 } }, token] ∧
      (∃ before following body, text.toList = before ++ '"' :: following ∧
        token.start = before.foldl Position.after Lexer.fresh.position ∧
        Encloses '"' following body ∧
        Literal.string token.text = .text (String.ofList body)) ∧
      (session.parse {} (quoted "\\\"n\\\\n")).1 = .ok (.text "\\\"n\\\\n") := by
  intro text token session
  have quiet : ({} : Settings Unit).hooks = .none := rfl
  have literals := string_literals quiet
  have tokens : Lexer.fresh.newTokens text = [
      { kind := .word, text := "1", start := {} },
      { kind := .punctuation, text := "+", start := { column := 3 } }, token] := by decide
  have member : token ∈ Lexer.fresh.newTokens text := by simp [tokens]
  exact ⟨tokens, literals.1 .fresh text token member rfl,
    (literals.2 _ (by decide) (by decide)).2 session rfl⟩

end BlockCalc
