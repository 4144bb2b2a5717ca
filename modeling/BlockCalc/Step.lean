import BlockCalc.Json
import BlockCalc.Operator
import BlockCalc.Value

/-!
# Steps

The steps of an evaluation that a log records, each with a rule and the details that the rule needs
to be replayed.
-/

namespace BlockCalc

/-- A step of an evaluation with what its entry in the log tells. -/
inductive Step where
  /-- An evaluation starts on a number of tokens. -/
  | parse (tokens : Nat)
  /-- A name is declared at a depth; `created` tells whether the frame did not have it before. -/
  | declare (name : String) (depth : Nat) (created : Bool)
  /-- A block is entered, which is then the innermost of `depth` blocks. -/
  | enterScope (depth : Nat)
  /-- The innermost of `depth` blocks is left and its names are discarded. -/
  | exitScope (depth : Nat) (discarded : List String)
  /-- An operator is about to be applied. -/
  | reduce (operator : BinaryOp) (operands : Nat)
  | assign (name : String) (operator : BinaryOp) (value : Value)
deriving DecidableEq

namespace Step

/-- The names that leaving a block discards. -/
def discarded? : Step → Option (List String)
  | exitScope _ discarded => some discarded
  | _ => none

/-- The name of the rule that a step follows. -/
def rule : Step → String
  | parse _ => "PARSE"
  | declare _ _ _ => "DECLARE"
  | enterScope _ => "ENTER_SCOPE"
  | exitScope _ _ => "EXIT_SCOPE"
  | reduce _ _ => "REDUCE"
  | assign _ _ _ => "ASSIGN"

/-- What an entry tells of a step besides its rule. -/
def details : Step → List (String × Json)
  | parse tokens => [("tokens", .number tokens)]
  | declare name depth created =>
      [("name", .text name), ("depth", .number depth), ("created", .bool created)]
  | enterScope depth => [("depth", .number depth)]
  | exitScope depth discarded => [("depth", .number depth), ("discarded", .texts discarded)]
  | reduce operator operands =>
      [("operator", .text operator.symbol), ("operands", .number operands)]
  | assign name operator value =>
      [("name", .text name), ("operator", .text operator.symbol), ("value", .text value.render)]

end Step

end BlockCalc
