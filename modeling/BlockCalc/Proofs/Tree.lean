import BlockCalc.Evaluation.Expression
import BlockCalc.Forest
import BlockCalc.Literal

/-!
# Expression trees

What an expression without assignments and blocks means, apart from how it is evaluated. A grammar
says which tokens write such an expression. A tree of it is ordered if operators with lower priority
numbers bind tighter and those of equal priority associate to the left, and the value of a tree
comes from the values of its children. The right child of a conjunction or a disjunction that its
left child decides is skipped. But skipping leaves out only the unary operators in front of a leaf:
what stands in brackets and what binds tighter is evaluated all the same.
-/

namespace BlockCalc

/-- The value that a literal writes or a variable has. -/
def Token.value? (scope : Scope) (token : Token) : Option Value :=
  match token.kind with
  | .string => some (Literal.string token.text)
  | .word =>
      if token.startsWithDigit then (Literal.integer token.text).toOption.map .integer
      else scope.read? token.text
  | .punctuation => none

/-- The token is a literal that is valid or a variable that is visible. -/
inductive Token.Known (scope : Scope) (token : Token) : Prop where
  | string (string : token.kind = .string)
  | integer (word : token.kind = .word) (starts : token.startsWithDigit = true) (number : Int)
      (valid : Literal.integer token.text = .ok number)
  | variable (identifier : token.isIdentifier = true) (visible : scope.has token.text = true)

/-- The kinds of phrases of which the grammar tells how they are written. -/
inductive Phrase where
  | operand
  | expression

/-- The tokens write a phrase whose brackets nest at most so many levels deep. -/
inductive Grammar : Phrase → (levels : Nat) → (tokens : List Token) → Prop where
  /-- A literal or a variable. -/
  | atom {levels : Nat} {token : Token} (leaf : token.kind ≠ .punctuation) :
      Grammar .operand levels [token]
  | unary {levels : Nat} {token : Token} {tokens : List Token} {operator : UnaryOp}
      (writes : token.unary? = some operator) (operand : Grammar .operand levels tokens) :
      Grammar .operand levels (token :: tokens)
  | parens {levels : Nat} {opener closer : Token} {tokens : List Token}
      (opens : opener.opens? = some .round) (closes : closer.closes? = some .round)
      (inner : Grammar .expression levels tokens) :
      Grammar .operand (levels + 1) (opener :: (tokens ++ [closer]))
  | single {levels : Nat} {tokens : List Token} (operand : Grammar .operand levels tokens) :
      Grammar .expression levels tokens
  | binary {levels : Nat} {token : Token} {tokens others : List Token} {operator : BinaryOp}
      (left : Grammar .expression levels tokens) (writes : token.binary? = some operator)
      (plain : operator.isAssignment = false) (right : Grammar .operand levels others) :
      Grammar .expression levels (tokens ++ token :: others)

/-- The tree of an expression without assignments and blocks, with the tokens that write it. -/
inductive Tree where
  /-- A literal or a variable. -/
  | atom (token : Token)
  | unary (operator : UnaryOp) (token : Token) (operand : Tree)
  /-- An expression in round brackets. -/
  | parens (opener : Token) (inner : Tree) (closer : Token)
  | binary (operator : BinaryOp) (token : Token) (left right : Tree)

namespace Tree

/-- The tokens of a tree in the order of reading. -/
def tokens : Tree → List Token
  | atom token => [token]
  | unary _ token operand => token :: operand.tokens
  | parens opener inner closer => opener :: (inner.tokens ++ [closer])
  | binary _ token left right => left.tokens ++ token :: right.tokens

/-- Each token writes what it stands for. -/
def Written : Tree → Prop
  | atom token => token.kind ≠ .punctuation
  | unary operator token operand => token.unary? = some operator ∧ operand.Written
  | parens opener inner closer =>
      opener.opens? = some .round ∧ closer.closes? = some .round ∧ inner.Written
  | binary operator token left right =>
      token.binary? = some operator ∧ operator.isAssignment = false ∧ left.Written ∧ right.Written

/-- How loosely a tree binds: operands bind tightest, and then the priority at the root counts. -/
def level : Tree → Nat
  | atom _ => 0
  | unary _ _ _ => 0
  | parens _ _ _ => 0
  | binary operator _ _ _ => operator.priority + 1

/--
The left child of a binary operator binds at least as tightly as the operator and the right child
binds tighter; a unary operator stands in front of an operand.
-/
def Ordered : Tree → Prop
  | atom _ => True
  | unary _ _ operand => operand.level = 0 ∧ operand.Ordered
  | parens _ inner _ => inner.Ordered
  | binary operator _ left right =>
      left.level ≤ operator.priority + 1 ∧ right.level ≤ operator.priority ∧
        left.Ordered ∧ right.Ordered

/-- The tree is an ordered tree of the tokens. -/
structure Spells (tree : Tree) (tokens : List Token) : Prop where
  tokens_eq : tree.tokens = tokens
  written : tree.Written
  ordered : tree.Ordered

/-- With such a value on its left an operator stops: it has this value and skips its right child. -/
inductive StopsAt : BinaryOp → Value → Prop where
  /-- A conjunction stops early at the integer zero. -/
  | conjunction : StopsAt .and (.integer 0)
  /-- A disjunction stops early at every other integer. -/
  | disjunction {number : Int} (nonzero : number ≠ 0) : StopsAt .or (.integer number)

/-- The evaluation stops early exactly where the tree does. -/
theorem stopsAt_iff {operator : BinaryOp} {value : Value} :
    StopsAt operator value ↔ decides operator value = true := by
  constructor
  · intro stops
    cases stops with
    | conjunction => rfl
    | disjunction nonzero => simpa [decides] using nonzero
  · intro decided
    cases operator <;> cases value <;> simp only [decides, Bool.false_eq_true] at decided
    case and.integer number =>
      obtain rfl : number = 0 := by simpa using decided
      exact .conjunction
    case or.integer number => exact .disjunction (by simpa using decided)

instance (operator : BinaryOp) (value : Value) : Decidable (StopsAt operator value) :=
  decidable_of_iff _ stopsAt_iff.symm

/-- How deep the brackets of a tree nest. -/
def depth : Tree → Nat
  | atom _ => 0
  | unary _ _ operand => operand.depth
  | parens _ inner _ => inner.depth + 1
  | binary _ _ left right => max left.depth right.depth

/-- The value of a tree, if it has one; a skipped tree is evaluated without its unary operators. -/
def value? (scope : Scope) : (tree : Tree) → (skipped : Bool) → Option Value
  | atom token, _ => token.value? scope
  | unary _ _ operand, true => operand.value? scope true
  | unary operator _ operand, false => do
      (operator.apply (← operand.value? scope false)).toOption
  | parens _ inner _, _ => inner.value? scope false
  | binary operator _ left right, _ => do
      let value ← left.value? scope false
      if StopsAt operator value then
        let _ ← right.value? scope true
        return value
      else
        (operator.apply value (← right.value? scope false)).toOption

end Tree

end BlockCalc
