import BlockCalc.Token

/-!
# Brackets

Tokens are cut at their brackets into an ordered forest: a leaf is a token that is no bracket, and a
nest is an opener with the forest up to the next closer that no opener takes before, which need not
be its partner and may be missing. Evaluation runs over the forest and tests each closer when it
comes to it.

Before that, all tokens are checked. `Forest.blamed?` finds the token to blame by number first: if
there are more openers of a kind than closers, the last opener, and if there are fewer, the last
closer. Otherwise it blames the first closer whose partner is not the opener that waits; openers
that still wait at the end are not looked for.
-/

namespace BlockCalc

/-- Tokens that are cut at their brackets. -/
inductive Forest where
  | nil
  | leaf (token : Token) (rest : Forest)
  /-- An opener of a bracket with what stands behind it, up to a closer or to the end. -/
  | nest (bracket : Bracket) (opener : Token) (inner : Forest) (closer : Option Token)
      (rest : Forest)

namespace Forest

/-- The tokens in the order of the source. -/
def tokens : Forest → List Token
  | nil => []
  | leaf token rest => token :: rest.tokens
  | nest _ opener inner closer rest => opener :: (inner.tokens ++ (closer.toList ++ rest.tokens))

/-- The number of brackets that stand inside one another. -/
def depth : Forest → Nat
  | nil => 0
  | leaf _ rest => rest.depth
  | nest _ _ inner _ rest => max (inner.depth + 1) rest.depth

/--
The forest up to the first closer without an opener, and for each such closer the closer and the
forest behind it.
-/
def levels : List Token → Forest × List (Token × Forest)
  | [] => (nil, [])
  | token :: rest =>
      let (following, outer) := levels rest
      match token.opens?, token.closes? with
      | some bracket, _ =>
          match outer with
          | (closer, behind) :: outer => (nest bracket token following closer behind, outer)
          | [] => (nest bracket token following none nil, [])
      | none, some _ => (nil, (token, following) :: outer)
      | none, none => (leaf token following, outer)

/-- The token to blame if a bracket is opened and closed unequally often. -/
def unequal? (tokens : List Token) (bracket : Bracket) : Option Token :=
  let opened := tokens.filter fun token => token.opens? = some bracket
  let closed := tokens.filter fun token => token.closes? = some bracket
  if closed.length < opened.length then opened.getLast?
  else if opened.length < closed.length then closed.getLast?
  else none

/-- The first closer that is not the partner of the innermost bracket that waits for one. -/
def tangled? : List Bracket → List Token → Option Token
  | _, [] => none
  | waiting, token :: rest =>
      match token.opens?, token.closes? with
      | some bracket, _ => tangled? (bracket :: waiting) rest
      | none, some bracket =>
          match waiting with
          | [] => some token
          | innermost :: outside =>
              if innermost = bracket then tangled? outside rest else some token
      | none, none => tangled? waiting rest

/-- The token to blame for brackets that do not match. -/
def blamed? (tokens : List Token) : Option Token :=
  unequal? tokens .round <|> unequal? tokens .curly <|> tangled? [] tokens

/-- The forest of a token sequence, or the token to blame for brackets that do not match. -/
def ofTokens (tokens : List Token) : Except Token Forest :=
  match blamed? tokens with
  | some token => .error token
  | none => .ok (levels tokens).1

/-- The closer without an opener at which the forest of a token sequence ends. -/
def stray? (tokens : List Token) : Option Token :=
  (levels tokens).2.head?.map (·.1)

end Forest

end BlockCalc
