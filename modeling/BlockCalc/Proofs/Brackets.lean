import BlockCalc.Proofs.Reading
import BlockCalc.Proofs.Scope
import BlockCalc.Proofs.TokenKinds
import Mathlib.Tactic.SplitIfs

/-!
# Forests of tokens

The check compares how often each bracket is opened and closed, and scans the tokens without a look
at what is left open in the end. Where the scan goes through, it leaves as many brackets of a kind
open as there are openers in excess, so that equal numbers leave none. Therefore `Forest.ofTokens`
finds a forest for exactly those token lists that are written by a forest whose brackets match, and
it finds that forest. So the forest of a token list is unique, and the forest of two lists that
stand side by side is made of their two forests.
-/

namespace BlockCalc

namespace Forest

/-- The leaves are no brackets, and each nest stands between a bracket and its partner. -/
def Matched : Forest → Prop
  | nil => True
  | leaf token rest => token.opens? = none ∧ token.closes? = none ∧ rest.Matched
  | nest bracket opener inner closer rest =>
      opener.opens? = some bracket ∧
        (∃ partner, closer = some partner ∧ partner.closes? = some bracket) ∧
        inner.Matched ∧ rest.Matched

theorem matched_append_iff {forest following : Forest} :
    (forest.append following).Matched ↔ forest.Matched ∧ following.Matched := by
  induction forest with
  | nil => simp [append, Matched]
  | leaf token rest ih => simp [append, Matched, ih, and_assoc]
  | nest bracket opener inner closer rest _ ih => simp [append, Matched, ih, and_assoc]

theorem Matched.append {forest following : Forest} (matched : forest.Matched)
    (followingMatched : following.Matched) : (forest.append following).Matched :=
  matched_append_iff.mpr ⟨matched, followingMatched⟩

/-- The tokens of the levels around a forest, each behind the closer that ends the level inside. -/
def outerTokens (outer : List (Token × Forest)) : List Token :=
  outer.flatMap fun (closer, following) => closer :: following.tokens

/-- The levels around a forest end with the closers of these brackets, and hold matched forests. -/
def Ends : List Bracket → List (Token × Forest) → Prop
  | [], [] => True
  | innermost :: outside, (closer, following) :: outer =>
      closer.closes? = some innermost ∧ following.Matched ∧ Ends outside outer
  | _, _ => False

/-- The brackets that wait for a closer after some tokens, each of which closes the innermost. -/
def stillOpen : List Bracket → List Token → List Bracket
  | waiting, [] => waiting
  | waiting, token :: rest =>
      match token.opens?, token.closes? with
      | some bracket, _ => stillOpen (bracket :: waiting) rest
      | none, some _ => stillOpen waiting.tail rest
      | none, none => stillOpen waiting rest

/-- The scan takes as many brackets of a kind off as it meets closers of that kind. -/
theorem count_stillOpen {waiting : List Bracket} {tokens : List Token}
    (untangled : tangled? waiting tokens = none) (bracket : Bracket) :
    (stillOpen waiting tokens).count bracket +
        (tokens.filter fun token => token.closes? = some bracket).length =
      waiting.count bracket + (tokens.filter fun token => token.opens? = some bracket).length := by
  fun_induction tangled? waiting tokens with
  | case1 => rfl
  | case2 waiting token rest opened opens ih =>
      have count := ih untangled
      have noCloser := Token.closes?_eq_none_of_opens? opens
      by_cases same : opened = bracket <;> simp [stillOpen, opens, noCloser, same] at count ⊢ <;>
        omega
  | case3 | case5 => cases untangled
  | case4 token rest opens closed outside closes ih =>
      have count := ih untangled
      by_cases same : closed = bracket <;> simp [stillOpen, opens, closes, same] at count ⊢ <;>
        omega
  | case6 waiting token rest closes opens ih =>
      simpa [stillOpen, opens, closes] using ih untangled

/-- The scan does not look at what still waits at the end, but if nothing does, all is matched. -/
theorem levels_sound {waiting : List Bracket} {tokens : List Token}
    (untangled : tangled? waiting tokens = none) (closed : stillOpen waiting tokens = []) :
    (levels tokens).1.Matched ∧
      tokens = (levels tokens).1.tokens ++ outerTokens (levels tokens).2 ∧
      Ends waiting (levels tokens).2 := by
  fun_induction tangled? waiting tokens with
  | case1 waiting =>
      cases closed
      exact ⟨trivial, rfl, trivial⟩
  | case2 waiting token rest bracket opens ih =>
      simp only [stillOpen, opens] at closed
      rcases cut : levels rest with ⟨inner, outer⟩
      rcases ih untangled closed with ⟨matched, written, ends⟩
      simp only [cut] at matched written ends
      rcases outer with _ | ⟨⟨closer, behind⟩, outer⟩
      · exact ends.elim
      · rcases ends with ⟨partner, behindMatched, ends⟩
        simp only [levels, cut, opens]
        refine ⟨⟨opens, ⟨closer, rfl, partner⟩, matched, behindMatched⟩, ?_, ends⟩
        simp [tokens, written, outerTokens]
  | case3 | case5 => cases untangled
  | case4 token rest opens bracket outside closes ih =>
      simp only [stillOpen, opens, closes, List.tail_cons] at closed
      rcases cut : levels rest with ⟨following, outer⟩
      rcases ih untangled closed with ⟨matched, written, ends⟩
      simp only [cut] at matched written ends
      simp only [levels, cut, opens, closes]
      refine ⟨trivial, ?_, closes, matched, ends⟩
      simp [tokens, written, outerTokens]
  | case6 waiting token rest closes opens ih =>
      simp only [stillOpen, opens, closes] at closed
      rcases cut : levels rest with ⟨following, outer⟩
      rcases ih untangled closed with ⟨matched, written, ends⟩
      simp only [cut] at matched written ends
      simp only [levels, cut, opens, closes]
      refine ⟨⟨opens, closes, matched⟩, ?_, ends⟩
      simp [tokens, written]

theorem length_filter_eq_of_unequal? {tokens : List Token} {bracket : Bracket}
    (equal : unequal? tokens bracket = none) :
    (tokens.filter fun token => token.opens? = some bracket).length =
      (tokens.filter fun token => token.closes? = some bracket).length := by
  simp only [unequal?] at equal
  split_ifs at equal with fewer more
  · simp [List.getLast?_eq_none_iff.mp equal] at fewer
  · simp [List.getLast?_eq_none_iff.mp equal] at more
  · omega

theorem blamed?_eq_none_iff {tokens : List Token} :
    blamed? tokens = none ↔
      (∀ bracket, unequal? tokens bracket = none) ∧ tangled? [] tokens = none := by
  simp only [blamed?, Option.orElse_eq_orElse, Option.orElse_eq_or, Option.or_eq_none_iff]
  constructor
  · rintro ⟨round, curly, untangled⟩
    refine ⟨fun bracket => ?_, untangled⟩
    cases bracket with
    | round => exact round
    | curly => exact curly
  · rintro ⟨equal, untangled⟩
    exact ⟨equal .round, equal .curly, untangled⟩

/-- If no token is blamed, the cut finds partners for all brackets and nothing else. -/
theorem levels_of_blamed? {tokens : List Token} (accepted : blamed? tokens = none) :
    (levels tokens).1.Matched ∧ (levels tokens).1.tokens = tokens ∧ (levels tokens).2 = [] := by
  rcases blamed?_eq_none_iff.mp accepted with ⟨equal, untangled⟩
  have closed : stillOpen [] tokens = [] := by
    refine List.eq_nil_iff_forall_not_mem.mpr fun bracket member => ?_
    have count := count_stillOpen untangled bracket
    have sameLength := length_filter_eq_of_unequal? (equal bracket)
    have positive := List.count_pos_iff.mpr member
    simp only [List.count_nil] at count
    omega
  rcases levels_sound untangled closed with ⟨matched, written, ends⟩
  rcases outer : (levels tokens).2 with _ | ⟨level, others⟩
  · rw [outer] at written
    exact ⟨matched, by simpa [outerTokens] using written.symm, rfl⟩
  · rw [outer] at ends
    exact ends.elim

theorem mem_of_unequal? {tokens : List Token} {bracket : Bracket} {blamed : Token}
    (unequal : unequal? tokens bracket = some blamed) : blamed ∈ tokens := by
  simp only [unequal?] at unequal
  split_ifs at unequal
  · exact (List.mem_filter.mp (List.mem_of_getLast? unequal)).1
  · exact (List.mem_filter.mp (List.mem_of_getLast? unequal)).1

theorem mem_of_tangled? {waiting : List Bracket} {tokens : List Token} {blamed : Token}
    (tangled : tangled? waiting tokens = some blamed) : blamed ∈ tokens := by
  induction tokens generalizing waiting with
  | nil => cases tangled
  | cons token rest ih =>
      simp only [tangled?] at tangled
      split at tangled
      · exact List.mem_cons_of_mem token (ih tangled)
      · split at tangled
        · cases tangled
          exact List.mem_cons_self
        · split_ifs at tangled
          · exact List.mem_cons_of_mem token (ih tangled)
          · cases tangled
            exact List.mem_cons_self
      · exact List.mem_cons_of_mem token (ih tangled)

/-- A token that is blamed for brackets that do not match is one of the tokens. -/
theorem mem_of_ofTokens_eq_error {tokens : List Token} {blamed : Token}
    (found : ofTokens tokens = .error blamed) : blamed ∈ tokens := by
  simp only [ofTokens] at found
  split at found
  · rename_i token blames
    cases found
    simp only [blamed?, Option.orElse_eq_orElse, Option.orElse_eq_or, Option.or_eq_some_iff]
      at blames
    rcases blames with round | ⟨_, curly | ⟨_, tangled⟩⟩
    · exact mem_of_unequal? round
    · exact mem_of_unequal? curly
    · exact mem_of_tangled? tangled
  · cases found

theorem append_nil (forest : Forest) : forest.append nil = forest := by
  induction forest with
  | nil => rfl
  | leaf token rest ih => simp [append, ih]
  | nest bracket opener inner closer rest _ ih => simp [append, ih]

theorem append_assoc (first second third : Forest) :
    (first.append second).append third = first.append (second.append third) := by
  induction first with
  | nil => rfl
  | leaf token rest ih => simp [append, ih]
  | nest bracket opener inner closer rest _ ih => simp [append, ih]

theorem levels_tokens_append {forest : Forest} (matched : forest.Matched) (rest : List Token) :
    levels (forest.tokens ++ rest) = (forest.append (levels rest).1, (levels rest).2) := by
  induction forest generalizing rest with
  | nil => rfl
  | leaf token after ih =>
      rcases matched with ⟨opens, closes, afterMatched⟩
      simp [tokens, levels, opens, closes, ih afterMatched, append]
  | nest bracket opener inner closer after ihInner ihAfter =>
      rcases matched with ⟨opens, ⟨closer, rfl, closes⟩, innerMatched, afterMatched⟩
      have closerOpens := Token.opens?_eq_none_of_closes? closes
      simp [tokens, levels, opens, closerOpens, closes, ihInner innerMatched, ihAfter afterMatched,
        append_nil, append]

theorem tangled?_tokens_append {forest : Forest} (matched : forest.Matched)
    (waiting : List Bracket) (rest : List Token) :
    tangled? waiting (forest.tokens ++ rest) = tangled? waiting rest := by
  induction forest generalizing waiting rest with
  | nil => rfl
  | leaf token after ih =>
      rcases matched with ⟨opens, closes, afterMatched⟩
      simp [tokens, tangled?, opens, closes, ih afterMatched]
  | nest bracket opener inner closer after ihInner ihAfter =>
      rcases matched with ⟨opens, ⟨closer, rfl, closes⟩, innerMatched, afterMatched⟩
      have closerOpens := Token.opens?_eq_none_of_closes? closes
      simp [tokens, tangled?, opens, closerOpens, closes, ihInner innerMatched,
        ihAfter afterMatched]

theorem length_filter_eq {forest : Forest} (matched : forest.Matched) (bracket : Bracket) :
    (forest.tokens.filter fun token => token.opens? = some bracket).length =
      (forest.tokens.filter fun token => token.closes? = some bracket).length := by
  induction forest with
  | nil => rfl
  | leaf token rest ih =>
      rcases matched with ⟨opens, closes, restMatched⟩
      simp [tokens, opens, closes, ih restMatched]
  | nest opened opener inner closer rest ihInner ihRest =>
      rcases matched with ⟨opens, ⟨closer, rfl, closes⟩, innerMatched, restMatched⟩
      have openerCloses := Token.closes?_eq_none_of_opens? opens
      have closerOpens := Token.opens?_eq_none_of_closes? closes
      simp only [tokens, List.filter_cons, List.filter_append, List.length_append, opens, closes,
        openerCloses, closerOpens, Option.some.injEq, reduceCtorEq, decide_false,
        Option.toList_some, List.filter_nil, Bool.false_eq_true, if_false]
      by_cases same : opened = bracket
      · simp [same, ihInner innerMatched, ihRest restMatched]
        omega
      · simp [same, ihInner innerMatched, ihRest restMatched]

theorem blamed?_tokens {forest : Forest} (matched : forest.Matched) :
    blamed? forest.tokens = none := by
  rw [blamed?_eq_none_iff]
  have untangled := tangled?_tokens_append matched [] []
  rw [List.append_nil] at untangled
  refine ⟨fun bracket => ?_, untangled⟩
  simp [unequal?, length_filter_eq matched bracket]

/-- The forest of a token list is the matched one that writes the list. -/
theorem ofTokens_eq_ok_iff {tokens : List Token} {forest : Forest} :
    ofTokens tokens = .ok forest ↔ forest.Matched ∧ forest.tokens = tokens := by
  constructor
  · intro found
    simp only [ofTokens] at found
    split at found
    · cases found
    · rename_i accepted
      cases found
      rcases levels_of_blamed? accepted with ⟨matched, written, _⟩
      exact ⟨matched, written⟩
  · rintro ⟨matched, rfl⟩
    have cut := levels_tokens_append matched []
    simp only [List.append_nil, levels, append_nil] at cut
    simp [ofTokens, blamed?_tokens matched, cut]

/-- Behind the check, no closer is left over. -/
theorem stray?_of_ofTokens {tokens : List Token} {forest : Forest}
    (found : ofTokens tokens = .ok forest) : stray? tokens = none := by
  simp only [ofTokens] at found
  split at found
  · cases found
  · rename_i accepted
    simp [stray?, (levels_of_blamed? accepted).2.2]

theorem ofTokens_append {tokens following : List Token} {forest followingForest : Forest}
    (found : ofTokens tokens = .ok forest)
    (foundFollowing : ofTokens following = .ok followingForest) :
    ofTokens (tokens ++ following) = .ok (forest.append followingForest) := by
  rw [ofTokens_eq_ok_iff] at found foundFollowing ⊢
  exact ⟨found.1.append foundFollowing.1, by simp [found.2, foundFollowing.2]⟩

end Forest

/-- Behind the check, the search for a closer without an opener finds none. -/
theorem Eval.evaluate_eq {σ : Type} (settings : Settings σ) (tokens : List Token) :
    evaluate settings tokens =
      (match Forest.ofTokens tokens with
        | .ok forest => statements settings forest
        | .error token => do
            fail (.bracketMismatch token.text) (some (← locate settings token))) := by
  rw [evaluate]
  cases found : Forest.ofTokens tokens with
  | ok forest => simp [Forest.stray?_of_ofTokens found, statements]
  | error token => rfl

end BlockCalc
