import BlockCalc.Proofs.Brackets
import Mathlib.Data.List.Forall2

/-!
# The same program at other places

Two tokens are alike if they differ at most in where they start, and so are programs, operands and
whatever else an evaluation holds. Brackets match in alike programs in the same way.
-/

namespace BlockCalc

namespace Token

/-- The token at another place. -/
def moved (token : Token) (start : Position) : Token :=
  { token with start }

/-- The tokens differ at most in where they start. -/
def Alike (left right : Token) : Prop :=
  ∃ start, right = left.moved start

variable (token : Token) (start : Position)

@[simp]
theorem kind_moved : (token.moved start).kind = token.kind :=
  rfl

@[simp]
theorem text_moved : (token.moved start).text = token.text :=
  rfl

@[simp]
theorem binary?_moved : (token.moved start).binary? = token.binary? :=
  rfl

@[simp]
theorem unary?_moved : (token.moved start).unary? = token.unary? :=
  rfl

theorem Alike.refl (token : Token) : token.Alike token :=
  ⟨token.start, rfl⟩

theorem alike_iff {left right : Token} :
    left.Alike right ↔ right.kind = left.kind ∧ right.text = left.text := by
  constructor
  · rintro ⟨start, rfl⟩
    exact ⟨rfl, rfl⟩
  · rintro ⟨kind, text⟩
    exact ⟨right.start, ext_of_text kind text rfl⟩

instance (left right : Token) : Decidable (left.Alike right) :=
  decidable_of_iff' _ alike_iff

theorem rel_alike_refl (token : Option Token) : Option.Rel Alike token token := by
  cases token with
  | none => exact .none
  | some token => exact .some (.refl token)

theorem bind_closes?_of_alike {token other : Option Token}
    (alike : Option.Rel Alike token other) : token.bind closes? = other.bind closes? := by
  cases alike with
  | none => rfl
  | some alike =>
      rcases alike with ⟨start, rfl⟩
      rfl

theorem forall₂_alike_refl (tokens : List Token) : tokens.Forall₂ Alike tokens :=
  List.forall₂_same.mpr fun token _ => .refl token

end Token

/-- The operands differ at most in their locations. -/
inductive Term.Alike : Term → Term → Prop where
  | variable (name : String) (location other : Location) :
      Alike (.variable name location) (.variable name other)
  | value (value : Value) (location other : Location) :
      Alike (.value value location) (.value value other)
  | unary (operator : UnaryOp) {operand otherOperand : Term} (location other : Location)
      (alike : operand.Alike otherOperand) :
      Alike (.unary operator operand location) (.unary operator otherOperand other)

theorem Term.Alike.refl (term : Term) : term.Alike term := by
  induction term with
  | «variable» name location => exact .variable name location location
  | value value location => exact .value value location location
  | unary operator operand location ih => exact .unary operator location location ih

/-- The pending operators are the same and have alike operands. -/
structure Pending.Alike (left right : Pending) : Prop where
  operator : left.operator = right.operator
  operands : left.operands.Forall₂ Term.Alike right.operands

theorem Pending.Alike.refl (pending : Pending) : pending.Alike pending where
  operator := rfl
  operands := List.forall₂_same.mpr fun term _ => .refl term

theorem Pending.Alike.push {left right : Pending} (alike : left.Alike right) {term other : Term}
    (alikeTerms : term.Alike other) : (left.push term).Alike (right.push other) where
  operator := alike.operator
  operands := List.rel_append alike.operands (.cons alikeTerms .nil)

/-- The phases differ at most in where their parts stand. -/
inductive Phase.Alike : Phase → Phase → Prop where
  | statement (last : Value) : Alike (.statement last) (.statement last)
  | naming (keyword other : Token) : Alike (.naming keyword) (.naming other)
  | named {name other : Token} (alike : name.Alike other) : Alike (.named name) (.named other)
  | operand {pending otherPending : List Pending} {unary otherUnary : List Token}
      (alikePending : pending.Forall₂ Pending.Alike otherPending)
      (alikeUnary : unary.Forall₂ Token.Alike otherUnary) :
      Alike (.operand pending unary) (.operand otherPending otherUnary)
  | operator {pending otherPending : List Pending} {term other : Term}
      (alikePending : pending.Forall₂ Pending.Alike otherPending) (alikeTerms : term.Alike other) :
      Alike (.operator pending term) (.operator otherPending other)
  | block (value : Value) (location other : Location) :
      Alike (.block value location) (.block value other)

theorem Phase.Alike.refl (phase : Phase) : phase.Alike phase := by
  have pendingAlike (pending : List Pending) : pending.Forall₂ Pending.Alike pending :=
    List.forall₂_same.mpr fun top _ => .refl top
  cases phase with
  | statement last => exact .statement last
  | naming keyword => exact .naming keyword keyword
  | named name => exact .named (.refl name)
  | operand pending unary =>
      exact .operand (pendingAlike pending) (Token.forall₂_alike_refl unary)
  | operator pending term => exact .operator (pendingAlike pending) (.refl term)
  | block value location => exact .block value location location

/-- The enclosures are of the same kind. -/
inductive Enclosure.Alike : Enclosure → Enclosure → Prop where
  | statements : Alike .statements .statements
  | parenthesis {group other : Group} (same : group.bracket = other.bracket) :
      Alike (.parenthesis group) (.parenthesis other)

namespace Forest

/-- The forests differ at most in where their tokens start. -/
inductive Alike : Forest → Forest → Prop where
  | nil : Alike .nil .nil
  | leaf {token other : Token} {rest otherRest : Forest} (alike : token.Alike other)
      (alikeRest : Alike rest otherRest) : Alike (.leaf token rest) (.leaf other otherRest)
  | nest (bracket : Bracket) {opener otherOpener : Token} {closer otherCloser : Option Token}
      {inner otherInner rest otherRest : Forest} (alikeOpener : opener.Alike otherOpener)
      (alikeInner : Alike inner otherInner)
      (alikeCloser : Option.Rel Token.Alike closer otherCloser)
      (alikeRest : Alike rest otherRest) :
      Alike (.nest bracket opener inner closer rest)
        (.nest bracket otherOpener otherInner otherCloser otherRest)

theorem Alike.refl (forest : Forest) : forest.Alike forest := by
  induction forest with
  | nil => exact .nil
  | leaf token rest ih => exact .leaf (.refl token) ih
  | nest bracket opener inner closer rest ihInner ihRest =>
      exact .nest bracket (.refl opener) ihInner (Token.rel_alike_refl closer) ihRest

theorem exists_append_of_forall₂ {α β : Type} {related : α → β → Prop} {first second : List α}
    {whole : List β} (alike : (first ++ second).Forall₂ related whole) :
    ∃ left right, whole = left ++ right ∧ first.Forall₂ related left ∧
      second.Forall₂ related right := by
  induction first generalizing whole with
  | nil => exact ⟨[], whole, rfl, .nil, alike⟩
  | cons item rest ih =>
      cases alike with
      | cons head tail =>
          rcases ih tail with ⟨left, right, rfl, alikeLeft, alikeRight⟩
          exact ⟨_ :: left, right, rfl, .cons head alikeLeft, alikeRight⟩

theorem exists_alike {forest : Forest} (matched : forest.Matched) {tokens : List Token}
    (alike : forest.tokens.Forall₂ Token.Alike tokens) :
    ∃ other : Forest, other.Matched ∧ other.tokens = tokens ∧ forest.Alike other := by
  induction forest generalizing tokens with
  | nil =>
      cases alike
      exact ⟨.nil, trivial, rfl, .nil⟩
  | leaf token rest ih =>
      rcases matched with ⟨opens, closes, restMatched⟩
      cases alike with
      | @cons _ other _ following alikeToken alikeFollowing =>
          rcases ih restMatched alikeFollowing with ⟨otherRest, otherMatched, rfl, alikeRest⟩
          rcases alikeToken with ⟨start, rfl⟩
          exact ⟨.leaf (token.moved start) otherRest, ⟨opens, closes, otherMatched⟩, rfl,
            .leaf ⟨start, rfl⟩ alikeRest⟩
  | nest bracket opener inner closer rest ihInner ihRest =>
      rcases matched with ⟨opens, ⟨closer, rfl, closes⟩, innerMatched, restMatched⟩
      cases alike with
      | cons alikeOpener alikeInside =>
          rcases exists_append_of_forall₂ alikeInside with
            ⟨innerTokens, others, rfl, alikeInner, alikeOthers⟩
          cases alikeOthers with
          | cons alikeCloser alikeFollowing =>
              rcases ihInner innerMatched alikeInner with
                ⟨otherInner, otherInnerMatched, rfl, alikeInners⟩
              rcases ihRest restMatched alikeFollowing with
                ⟨otherRest, otherRestMatched, rfl, alikeRests⟩
              rcases alikeOpener with ⟨start, rfl⟩
              rcases alikeCloser with ⟨closerStart, rfl⟩
              exact ⟨.nest bracket (opener.moved start) otherInner (closer.moved closerStart)
                otherRest, ⟨opens, ⟨_, rfl, closes⟩, otherInnerMatched, otherRestMatched⟩, rfl,
                .nest bracket ⟨start, rfl⟩ alikeInners (.some ⟨closerStart, rfl⟩) alikeRests⟩

/-- Where brackets match, they match in alike tokens in the same way. -/
theorem ofTokens_alike {tokens others : List Token} {forest : Forest}
    (found : ofTokens tokens = .ok forest) (alike : tokens.Forall₂ Token.Alike others) :
    ∃ other, ofTokens others = .ok other ∧ forest.Alike other := by
  rcases ofTokens_eq_ok_iff.mp found with ⟨matched, rfl⟩
  rcases exists_alike matched alike with ⟨other, otherMatched, written, alikeForests⟩
  exact ⟨other, ofTokens_eq_ok_iff.mpr ⟨otherMatched, written⟩, alikeForests⟩

end Forest

end BlockCalc
