import BlockCalc.Proofs.Action

/-!
# Reading part by part

A forest is read from left to right, so reading two forests that stand side by side is reading the
first one and then, in the phase where that ended, the second one. `Eval.enclosed` names what
happens between an opener and its closer.
-/

namespace BlockCalc

/-- A forest followed by another one. -/
def Forest.append : Forest → Forest → Forest
  | .nil, following => following
  | .leaf token rest, following => .leaf token (rest.append following)
  | .nest bracket opener inner closer rest, following =>
      .nest bracket opener inner closer (rest.append following)

@[simp]
theorem Forest.tokens_append (forest following : Forest) :
    (forest.append following).tokens = forest.tokens ++ following.tokens := by
  induction forest with
  | nil => rfl
  | leaf token rest ih => simp [append, tokens, ih]
  | nest bracket opener inner closer rest _ ih => simp [append, tokens, ih]

namespace Eval

variable {σ : Type} (settings : Settings σ)

/-- The value of what stands in a bracket, read from a phase on and up to the closer. -/
def contents (enclosure : Enclosure) (phase : Phase) (inner : Forest) (closer : Option Token) :
    Eval σ Value := do
  let phase ← read settings enclosure inner phase
  let value ← finish settings closer phase
  closeGroup closer
  return value

/-- The value of a bracket whose opener has been read. -/
def enclosed (location : Location) (group : Group) (inner : Forest) (closer : Option Token) :
    Bracket → Eval σ Value
  | .round => contents settings (.parenthesis group) (.operand [] []) inner closer
  | .curly => do
      enterBlock settings location
      let value ← contents settings .statements (.statement .void) inner closer
      exitBlock settings location
      return value

/-- The value of the statements of a whole program. -/
def statements (program : Forest) : Eval σ Value := do
  finish settings none (← read settings .statements program (.statement .void))

@[simp]
theorem read_nil (enclosure : Enclosure) (phase : Phase) :
    read settings enclosure .nil phase = pure phase :=
  rfl

theorem read_leaf (enclosure : Enclosure) (token : Token) (rest : Forest) (phase : Phase) :
    read settings enclosure (.leaf token rest) phase = (do
      advance
      read settings enclosure rest (← readToken settings enclosure token phase)) :=
  rfl

variable {settings} in
/-- Behind a token that can be read, the rest is read on. -/
theorem read_leaf_of_ok {enclosure : Enclosure} {token : Token} {phase next : Phase}
    {session after : Session σ}
    (ran : readToken settings enclosure token phase
      { session with position := session.position + 1 } = .ok next after) (rest : Forest) :
    read settings enclosure (.leaf token rest) phase session =
      read settings enclosure rest next after := by
  rw [read_leaf, bind_of_ok (advance_eq_ok session), bind_of_ok ran]

theorem read_nest (enclosure : Enclosure) (bracket : Bracket) (opener : Token)
    (closer : Option Token) (inner rest : Forest) (phase : Phase) :
    read settings enclosure (.nest bracket opener inner closer rest) phase = (do
      let (pending, unary) ← beforeBracket settings enclosure opener phase
      let location ← locate settings opener
      advance
      let group ← openGroup settings bracket location
      let value ← enclosed settings location group inner closer bracket
      read settings enclosure rest
        (← afterBracket settings bracket pending unary value location)) := by
  cases bracket <;> simp [read, enclosed, contents]

theorem closeGroup_eq {session : Session σ} {group : Group} {outer : List Group}
    (groups : session.groups = group :: outer) (closer : Option Token) :
    closeGroup closer session =
      if closer.bind Token.closes? = some group.bracket then
        .ok () { session with groups := outer, position := session.position + 1 }
      else
        .error { cause := .bracketMismatch group.bracket.opener, location := some group.location }
          session := by
  rcases session with ⟨workspace, position, _, log, observer⟩
  cases groups
  simp only [closeGroup]
  change (if _ then _ else _ : Eval σ Unit) _ = _
  split <;> rfl

/-- The partner of the innermost bracket closes it. -/
theorem closeGroup_of_open {session : Session σ} {group : Group} {outer : List Group}
    {closer : Token} (groups : session.groups = group :: outer)
    (closes : closer.closes? = some group.bracket) :
    closeGroup (some closer) session =
      .ok () { session with groups := outer, position := session.position + 1 } := by
  rw [closeGroup_eq groups]
  exact if_pos closes

/-- What closes the innermost bracket is its partner. -/
theorem exists_partner_of_closeGroup {session after : Session σ} {group : Group}
    {outer : List Group} (groups : session.groups = group :: outer) {closer : Option Token}
    (ran : closeGroup closer session = .ok () after) :
    (∃ partner, closer = some partner ∧ partner.closes? = some group.bracket) ∧
      after = { session with groups := outer, position := session.position + 1 } := by
  rw [closeGroup_eq groups] at ran
  split at ran
  · rename_i closes
    cases ran
    exact ⟨Option.bind_eq_some_iff.mp closes, rfl⟩
  · cases ran

theorem read_append (enclosure : Enclosure) (forest following : Forest) (phase : Phase) :
    read settings enclosure (forest.append following) phase = (do
      read settings enclosure following (← read settings enclosure forest phase)) := by
  induction forest generalizing phase with
  | nil => simp [Forest.append]
  | leaf token rest ih => simp [Forest.append, read_leaf, ih]
  | nest bracket opener inner closer rest _ ih => simp [Forest.append, read_nest, ih]

theorem contents_append (enclosure : Enclosure) (phase : Phase) (forest following : Forest)
    (closer : Option Token) :
    contents settings enclosure phase (forest.append following) closer = (do
      contents settings enclosure (← read settings enclosure forest phase) following closer) := by
  simp only [contents, read_append, bind_assoc]

theorem contents_leaf (enclosure : Enclosure) (phase : Phase) (token : Token) (rest : Forest)
    (closer : Option Token) :
    contents settings enclosure phase (.leaf token rest) closer = (do
      advance
      contents settings enclosure (← readToken settings enclosure token phase) rest closer) := by
  simp only [contents, read_leaf, bind_assoc]

end Eval

end BlockCalc
