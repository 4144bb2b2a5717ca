import BlockCalc.Proofs.Turning

/-!
# Blocks that stand alone

A block that is the first thing of an expression may be all of it. Once anything else has been read
of an expression in round brackets, the expression goes on with every token up to the closer, and
never is a mere block again. So where a block stands alone in round brackets, nothing else has been
read of them.
-/

namespace BlockCalc

variable {σ : Type}

/-- A block and nothing else. -/
def Forest.IsBlock : Forest → Prop
  | .nest .curly _ _ _ .nil => True
  | _ => False

/-- An expression has begun with something else than a block that may stand alone. -/
def Phase.GoesOn : Phase → Prop
  | .operand pending unary => pending ≠ [] ∨ unary ≠ []
  | .operator _ _ => True
  | _ => False

theorem Phase.GoesOn.inExpression {phase : Phase} (goesOn : phase.GoesOn) :
    phase.InExpression := by
  cases phase <;> trivial

namespace Eval

variable {settings : Settings σ}

section Blocks

variable {group : Group}

theorem ensures_pushOperator_ne_nil (operator : BinaryOp) (location : Location)
    (pending : List Pending) (term : Term) (session : Session σ) :
    Ensures (pushOperator settings operator location pending term) session
      (fun pushed _ => pushed ≠ []) (fun _ _ => True) := by
  induction pending generalizing term session with
  | nil => simp [pushOperator]
  | cons top outer ih =>
      simp only [pushOperator]
      split
      · simp
      · split
        · apply (ensures_trivial _ session).bind
          intro value reduced _
          exact ih _ reduced
        · simp

theorem Leads.goesOn {session : Session σ} {token : Token} {phase next : Phase}
    (leads : Leads settings session (.parenthesis group) token phase next)
    (inside : phase.InExpression) : next.GoesOn := by
  cases leads with
  | keyword isLet begins =>
      cases begins with
      | first last => exact inside.elim
      | next value location inStatements noOperator => cases inStatements
  | ends separator yields inStatements => cases inStatements
  | string awaits string => trivial
  | word awaits word isTerm => trivial
  | unary awaits punctuation isUnary => exact Or.inr (List.cons_ne_nil _ _)

/-- In round brackets an expression that has begun goes on with every token. -/
theorem ensures_readToken_goesOn {phase : Phase} (inside : phase.InExpression) (token : Token)
    (session : Session σ) :
    Ensures (readToken settings (.parenthesis group) token phase) session
      (fun next _ => next.GoesOn) (fun _ _ => True) := by
  apply Ensures.readToken
  intro deed does
  cases does with
  | turns leads => exact leads.goesOn inside
  | refuses _ => trivial
  | pushes offers stands =>
      apply (ensures_pushOperator_ne_nil _ _ _ _ session).bind
      intro pushed after some
      exact Or.inl some
  | declares keyword identifier => exact inside.elim
  | concludes separator => exact (ensures_trivial _ session).bind fun value finished _ => trivial

/-- Nothing that follows makes it a mere block again. -/
theorem ensures_read_goesOn {phase : Phase} (goesOn : phase.GoesOn) (forest : Forest)
    (session : Session σ) :
    Ensures (read settings (.parenthesis group) forest phase) session
      (fun next _ => next.GoesOn) (fun _ _ => True) := by
  induction forest generalizing phase session with
  | nil => exact goesOn
  | leaf token rest ih =>
      rw [read_leaf, ensures_bind, ensures_advance]
      apply (ensures_readToken_goesOn goesOn.inExpression token _).bind
      intro next after nextGoesOn
      exact ih nextGoesOn after
  | nest bracket opener inner closer rest _ ih =>
      rw [read_nest]
      cases phase with
      | operand pending unary =>
          have afterwards (value : Value) (location : Location) (closed : Session σ) :
              Ensures (afterBracket settings bracket pending unary value location) closed
                (fun next _ => next.GoesOn) (fun _ _ => True) := by
            simp only [ensures_afterBracket, Phase.closing]
            split
            · simp [Phase.GoesOn] at goesOn
            · trivial
          simp only [beforeBracket, pure_bind, ensures_bind, ensures_locate, ensures_advance]
          apply (ensures_trivial _ _).imp
          intro group opened _
          apply (ensures_trivial _ opened).imp
          intro value closed _
          apply (afterwards value _ closed).imp
          intro next after nextGoesOn
          exact ih nextGoesOn after
      | operator pending term => exact trivial
      | _ => exact goesOn.elim

theorem ensures_read_leaf_goesOn {phase : Phase} (inside : phase.InExpression) (token : Token)
    (rest : Forest) (session : Session σ) :
    Ensures (read settings (.parenthesis group) (.leaf token rest) phase) session
      (fun next _ => next.GoesOn) (fun _ _ => True) := by
  rw [read_leaf, ensures_bind, ensures_advance]
  apply (ensures_readToken_goesOn inside token _).bind
  intro next after goesOn
  exact ensures_read_goesOn goesOn rest after

/-- Nothing may follow a mere block that is to stay one. -/
theorem eq_nil_of_read_block {forest : Forest} {session after : Session σ}
    {value other : Value} {location otherLocation : Location}
    (ran : read settings (.parenthesis group) forest (.block value location) session =
      .ok (.block other otherLocation) after) : forest = .nil := by
  cases forest with
  | nil => rfl
  | leaf token rest =>
      have inside : (Phase.block value location).InExpression := trivial
      exact ((ensures_read_leaf_goesOn inside token rest session).of_ok ran).elim
  | nest bracket opener inner closer rest =>
      rw [read_nest] at ran
      rcases exists_of_bind_ok ran with ⟨before, ready, impossible, _⟩
      cases impossible

/-- What has been read of round brackets is a block if it may stand there alone. -/
theorem isBlock_of_read {forest : Forest} {session after : Session σ} {value : Value}
    {location : Location}
    (ran : read settings (.parenthesis group) forest (.operand [] []) session =
      .ok (.block value location) after) : forest.IsBlock := by
  cases forest with
  | nil => cases ran
  | leaf token rest =>
      have inside : (Phase.operand [] []).InExpression := trivial
      exact ((ensures_read_leaf_goesOn inside token rest session).of_ok ran).elim
  | nest bracket opener inner closer rest =>
      rw [read_nest] at ran
      rcases exists_of_bind_ok ran with ⟨⟨pending, unary⟩, ready, before, ran⟩
      cases before
      rcases exists_of_bind_ok ran with ⟨opened, located, _, ran⟩
      rcases exists_of_bind_ok ran with ⟨_, advanced, _, ran⟩
      rcases exists_of_bind_ok ran with ⟨inside, entered, _, ran⟩
      rcases exists_of_bind_ok ran with ⟨result, closed, _, ran⟩
      rcases exists_of_bind_ok ran with ⟨next, behind, afterwards, ran⟩
      cases bracket with
      | round =>
          cases afterwards
          have goesOn : (Phase.operator [] (.value result opened)).GoesOn := trivial
          exact ((ensures_read_goesOn goesOn rest closed).of_ok ran).elim
      | curly =>
          cases afterwards
          rw [eq_nil_of_read_block ran]
          trivial

end Blocks

end Eval

end BlockCalc
