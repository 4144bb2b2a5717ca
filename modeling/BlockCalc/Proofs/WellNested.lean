import BlockCalc.Lexer
import BlockCalc.Proofs.Brackets

/-!
# Well-nested brackets

Which token lists have a forest depends on their brackets alone. These have to be well nested: every
bracket that is opened is closed later by its own kind, and what stands in between is well nested
again. Whatever waits with more brackets opened than closed is not, and has no forest yet.
-/

namespace BlockCalc

/-- A token opens or closes a bracket. -/
def Token.isBracket (token : Token) : Bool :=
  token.opens?.isSome || token.closes?.isSome

/-- Every opener is followed by a closer of its own kind, with well-nested brackets in between. -/
inductive WellNested : List Token → Prop where
  | nil : WellNested []
  | nest {bracket : Bracket} {opener closer : Token} {inner rest : List Token}
      (opens : opener.opens? = some bracket) (closes : closer.closes? = some bracket)
      (innerNested : WellNested inner) (restNested : WellNested rest) :
      WellNested (opener :: (inner ++ closer :: rest))

namespace Token

variable {token : Token}

theorem isBracket_of_opens? {bracket : Bracket} (opens : token.opens? = some bracket) :
    token.isBracket = true := by
  simp [isBracket, opens]

theorem isBracket_of_closes? {bracket : Bracket} (closes : token.closes? = some bracket) :
    token.isBracket = true := by
  simp [isBracket, closes]

theorem isBracket_eq_false_iff :
    token.isBracket = false ↔ token.opens? = none ∧ token.closes? = none := by
  simp [isBracket]

end Token

namespace Forest

theorem Matched.wellNested {forest : Forest} (matched : forest.Matched) :
    WellNested (forest.tokens.filter Token.isBracket) := by
  induction forest with
  | nil => exact .nil
  | leaf token rest ih =>
      rcases matched with ⟨opens, closes, restMatched⟩
      have noBracket := Token.isBracket_eq_false_iff.mpr ⟨opens, closes⟩
      simpa [tokens, noBracket] using ih restMatched
  | nest bracket opener inner closer rest ihInner ihRest =>
      rcases matched with ⟨opens, ⟨closer, rfl, closes⟩, innerMatched, restMatched⟩
      simpa [tokens, Token.isBracket_of_opens? opens, Token.isBracket_of_closes? closes] using
        WellNested.nest opens closes (ihInner innerMatched) (ihRest restMatched)

theorem exists_matched_of_no_bracket {tokens : List Token}
    (noBracket : ∀ token ∈ tokens, token.isBracket = false) :
    ∃ forest : Forest, forest.Matched ∧ forest.tokens = tokens := by
  induction tokens with
  | nil => exact ⟨nil, trivial, rfl⟩
  | cons token rest ih =>
      rw [List.forall_mem_cons] at noBracket
      rcases ih noBracket.2 with ⟨forest, matched, written⟩
      rcases Token.isBracket_eq_false_iff.mp noBracket.1 with ⟨opens, closes⟩
      exact ⟨leaf token forest, ⟨opens, closes, matched⟩, by rw [Forest.tokens, written]⟩

/-- A forest in front of another one is matched if both are. -/
theorem exists_matched_append {front following : List Token}
    (found : ∃ forest : Forest, forest.Matched ∧ forest.tokens = front)
    (foundFollowing : ∃ forest : Forest, forest.Matched ∧ forest.tokens = following) :
    ∃ forest : Forest, forest.Matched ∧ forest.tokens = front ++ following := by
  rcases found with ⟨forest, matched, rfl⟩
  rcases foundFollowing with ⟨other, otherMatched, rfl⟩
  exact ⟨forest.append other, matched.append otherMatched, tokens_append forest other⟩

end Forest

theorem WellNested.exists_matched {brackets : List Token} (nested : WellNested brackets)
    {tokens : List Token} (filtered : tokens.filter Token.isBracket = brackets) :
    ∃ forest : Forest, forest.Matched ∧ forest.tokens = tokens := by
  induction nested generalizing tokens with
  | nil =>
      apply Forest.exists_matched_of_no_bracket
      simpa [List.filter_eq_nil_iff] using filtered
  | @nest bracket opener closer _ _ opens closes _ _ ihInner ihRest =>
      -- The tokens around the two brackets, whose own brackets are the ones inside and behind.
      rcases List.filter_eq_cons_iff.mp filtered with ⟨front, behind, rfl, noBracket, _, behindEq⟩
      rcases List.filter_eq_append_iff.mp behindEq with ⟨within, last, rfl, withinEq, lastEq⟩
      rcases List.filter_eq_cons_iff.mp lastEq with ⟨more, following, rfl, noMore, _, restEq⟩
      have plain : ∀ {part : List Token}, (∀ token ∈ part, ¬token.isBracket = true) →
          ∃ forest : Forest, forest.Matched ∧ forest.tokens = part := fun none =>
        Forest.exists_matched_of_no_bracket fun token member => by simpa using none token member
      rcases Forest.exists_matched_append (ihInner withinEq) (plain noMore) with
        ⟨inner, innerMatched, innerWritten⟩
      rcases ihRest restEq with ⟨rest, restMatched, rfl⟩
      rcases plain noBracket with ⟨leaves, leavesMatched, rfl⟩
      refine ⟨leaves.append (.nest bracket opener inner closer rest),
        leavesMatched.append ⟨opens, ⟨closer, rfl, closes⟩, innerMatched, restMatched⟩, ?_⟩
      simp [Forest.tokens, innerWritten]

/-- Nobody is blamed if and only if the brackets are well nested. -/
theorem Forest.blamed?_eq_none_iff_wellNested {tokens : List Token} :
    blamed? tokens = none ↔ WellNested (tokens.filter Token.isBracket) := by
  constructor
  · intro accepted
    rcases levels_of_blamed? accepted with ⟨matched, written, _⟩
    exact written ▸ matched.wellNested
  · intro nested
    rcases nested.exists_matched rfl with ⟨forest, matched, rfl⟩
    exact blamed?_tokens matched

/-- Tokens have a forest if and only if their brackets are well nested. -/
theorem Forest.exists_ofTokens_eq_ok_iff {tokens : List Token} :
    (∃ forest, ofTokens tokens = .ok forest) ↔ WellNested (tokens.filter Token.isBracket) := by
  rw [← blamed?_eq_none_iff_wellNested, ofTokens]
  cases blamed? tokens <;> simp

theorem WellNested.unclosedBrackets_filter {brackets : List Token} (nested : WellNested brackets) :
    unclosedBrackets brackets = 0 := by
  induction nested with
  | nil => rfl
  | nest opens closes _ _ ihInner ihRest =>
      have openerCloses := Token.closes?_eq_none_of_opens? opens
      have closerOpens := Token.opens?_eq_none_of_closes? closes
      simp only [unclosedBrackets, List.countP_cons, List.countP_append, opens, closes,
        openerCloses, closerOpens, Option.isSome_some, Option.isSome_none, Bool.false_eq_true,
        if_true, if_false] at ihInner ihRest ⊢
      omega

/-- Only brackets count among the brackets that are opened or closed. -/
theorem unclosedBrackets_filter_isBracket (tokens : List Token) :
    unclosedBrackets (tokens.filter Token.isBracket) = unclosedBrackets tokens := by
  have opening (token : Token) :
      (token.opens?.isSome && token.isBracket) = token.opens?.isSome := by
    cases opens : token.opens? <;> simp [Token.isBracket, opens]
  have closing (token : Token) :
      (token.closes?.isSome && token.isBracket) = token.closes?.isSome := by
    cases closes : token.closes? <;> simp [Token.isBracket, closes]
  simp only [unclosedBrackets, List.countP_filter, opening, closing]

/-- Where more brackets are opened than closed, the brackets are not well nested. -/
theorem not_wellNested_of_unclosed {tokens : List Token} (unclosed : 0 < unclosedBrackets tokens) :
    ¬WellNested (tokens.filter Token.isBracket) := by
  intro nested
  have balanced := nested.unclosedBrackets_filter
  rw [unclosedBrackets_filter_isBracket] at balanced
  omega

end BlockCalc
