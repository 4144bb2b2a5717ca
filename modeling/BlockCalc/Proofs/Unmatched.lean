import BlockCalc.Proofs.Lockstep

/-!
# Brackets that are open after some tokens

Reading tokens from left to right, an opener waits for its partner until a closer takes the last one
that waits. What is left at the end are the openers without a partner. Tokens whose brackets match
leave none, so that a part of a program that is matched does not change which brackets are open.

A place is in step with the tokens that count if its groups are exactly these openers, each with its
own location and depth, if they are not more than may nest, and if as many blocks are entered as
there are curly ones among them.
-/

namespace BlockCalc

variable {σ τ : Type}

/-- The openers that wait for their partners after one more token, innermost first. -/
def pairOff (waiting : List (Bracket × Token)) (token : Token) : List (Bracket × Token) :=
  match token.opens?, token.closes? with
  | some bracket, _ => (bracket, token) :: waiting
  | none, some _ => waiting.tail
  | none, none => waiting

/-- The openers without a partner among the tokens, innermost first. -/
def unmatched (tokens : List Token) : List (Bracket × Token) :=
  tokens.foldl pairOff []

theorem Forest.Matched.foldl_pairOff {forest : Forest} (matched : forest.Matched)
    (waiting : List (Bracket × Token)) : forest.tokens.foldl pairOff waiting = waiting := by
  induction forest generalizing waiting with
  | nil => rfl
  | leaf token rest ih =>
      rcases matched with ⟨opens, closes, restMatched⟩
      simp only [Forest.tokens, List.foldl_cons, pairOff, opens, closes]
      exact ih restMatched waiting
  | nest bracket opener inner closer rest ihInner ihRest =>
      rcases matched with ⟨opens, ⟨closer, rfl, closes⟩, innerMatched, restMatched⟩
      have closerOpens := Token.opens?_eq_none_of_closes? closes
      simp only [Forest.tokens, List.foldl_cons, List.foldl_append, pairOff, opens,
        ihInner innerMatched, Option.toList_some, List.foldl_nil, closerOpens, closes,
        List.tail_cons]
      exact ihRest restMatched waiting

theorem unmatched_append_tokens (tokens : List Token) {forest : Forest}
    (matched : forest.Matched) : unmatched (tokens ++ forest.tokens) = unmatched tokens := by
  rw [unmatched, List.foldl_append, matched.foldl_pairOff]
  rfl

theorem unmatched_append_opener (tokens : List Token) {opener : Token} {bracket : Bracket}
    (opens : opener.opens? = some bracket) :
    unmatched (tokens ++ [opener]) = (bracket, opener) :: unmatched tokens := by
  simp [unmatched, pairOff, opens]

/-- The groups of openers, outermost first, from openers that are listed innermost first. -/
def groupsOf (fileName : String) (source : Source) (opened : List (Bracket × Token)) :
    List Group :=
  opened.reverse.mapIdx fun index (bracket, opener) =>
    { bracket, location := opener.location fileName source, depth := index + 1 }

theorem groupsOf_cons (fileName : String) (source : Source) (bracket : Bracket) (opener : Token)
    (outer : List (Bracket × Token)) :
    groupsOf fileName source ((bracket, opener) :: outer) =
      groupsOf fileName source outer ++
        [{ bracket, location := opener.location fileName source, depth := outer.length + 1 }] := by
  simp [groupsOf, List.mapIdx_append]

@[simp]
theorem length_groupsOf (fileName : String) (source : Source) (opened : List (Bracket × Token)) :
    (groupsOf fileName source opened).length = opened.length := by
  simp [groupsOf]

/-- The groups that are open after some tokens, outermost first. -/
def openGroups (fileName : String) (source : Source) (tokens : List Token) : List Group :=
  groupsOf fileName source (unmatched tokens)

/-- The groups and blocks that are open are those of the tokens that count. -/
structure Place.InStep (settings : Settings σ) (source : Source) (counted : List Token)
    (place : Place) : Prop where
  groups : place.groups.reverse = openGroups settings.fileName source counted
  levels : place.groups.length ≤ settings.nesting.levels
  depth : place.depth = place.groups.countP (·.bracket = .curly)

namespace Place.InStep

variable {settings : Settings σ} {source : Source} {counted : List Token} {place : Place}

theorem append_tokens (inStep : place.InStep settings source counted) {forest : Forest}
    (matched : forest.Matched) : place.InStep settings source (counted ++ forest.tokens) where
  groups := by rw [openGroups, unmatched_append_tokens counted matched]; exact inStep.groups
  levels := inStep.levels
  depth := inStep.depth

theorem length_unmatched (inStep : place.InStep settings source counted) :
    (unmatched counted).length = place.groups.length := by
  have sameLength := congrArg List.length inStep.groups
  simpa [openGroups] using sameLength.symm

theorem append_opener (inStep : place.InStep settings source counted) {opener : Token}
    {bracket : Bracket} (opens : opener.opens? = some bracket)
    (fits : place.groups.length < settings.nesting.levels) {inner : Place}
    (groups : inner.groups =
      { bracket, location := opener.location settings.fileName source,
        depth := place.groups.length + 1 } :: place.groups)
    (depth : inner.depth = place.depth + if bracket = .curly then 1 else 0) :
    inner.InStep settings source (counted ++ [opener]) where
  groups := by
    rw [openGroups, unmatched_append_opener counted opens, groupsOf_cons, inStep.length_unmatched,
      groups, List.reverse_cons, inStep.groups]
    rfl
  levels := by
    rw [groups]
    exact fits
  depth := by
    rw [groups, depth, List.countP_cons, inStep.depth]
    simp

end Place.InStep

end BlockCalc
