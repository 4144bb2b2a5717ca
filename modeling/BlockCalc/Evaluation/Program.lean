import BlockCalc.Evaluation.Expression
import BlockCalc.Forest
import BlockCalc.Literal
import BlockCalc.Text.Order

/-!
# Evaluation of programs

A program is evaluated while it is read, one token or bracketed part at a time, by recursion on the
forest of its brackets. `Phase` says what has been read of the current statement and so what may
follow. Statements are separated by semicolons; a block that is a whole statement needs none after
it. The value of a sequence of statements is that of the last one, and a statement that is empty or
a mere declaration is void.
-/

namespace BlockCalc

/-- What has been read of the current statement. -/
inductive Phase where
  /-- Nothing; `last` is the value of the statement before. -/
  | statement (last : Value)
  | naming (keyword : Token)
  /-- A declaration, which an assignment to its name may follow. -/
  | named (name : Token)
  /-- Something that an operand has to follow; `unary` holds the last unary operator first. -/
  | operand (pending : List Pending) (unary : List Token)
  /-- An operand, which an operator may follow. -/
  | operator (pending : List Pending) (term : Term)
  /-- A block and nothing else, so that it may be a whole statement. -/
  | block (value : Value) (location : Location)

/-- What surrounds the part of a program that is being read. -/
inductive Enclosure where
  /-- The top level or a block, which hold statements. -/
  | statements
  /-- A pair of round brackets, which holds one expression. -/
  | parenthesis (group : Group)

namespace Eval

variable {σ : Type}

/-- Ends an expression before its enclosure ends, which round brackets do not allow. -/
def endExpression : Enclosure → Eval σ Unit
  | .statements => pure ()
  | .parenthesis group => fail (.bracketMismatch group.bracket.opener) (some group.location)

/-- Closes the innermost bracket, which there must be, with the next token, its partner. -/
def closeGroup (next : Option Token) : Eval σ Unit := do
  let session ← get
  match session.groups with
  | [] => fail (.unhandled .noOpenGroup) session.log.lastLocation
  | group :: outer =>
      if next.bind Token.closes? = some group.bracket then
        set { session with groups := outer, position := session.position + 1 }
      else
        fail (.bracketMismatch group.bracket.opener) (some group.location)

variable (settings : Settings σ)

/-- Opens a bracket, if the nesting limit allows. -/
def openGroup (bracket : Bracket) (location : Location) : Eval σ Group := do
  let session ← get
  if settings.nesting.levels ≤ session.groups.length then
    fail (.invalidExpression (.tooDeep settings.nesting.levels)) (some location)
  else
    let group := { bracket, location, depth := session.groups.length + 1 }
    set { session with groups := group :: session.groups }
    return group

/-- Enters a block: its frame is there before the step is recorded and listeners are told. -/
def enterBlock (location : Location) : Eval σ Unit := do
  modify fun session => { session with scope := session.scope.enter }
  record settings (.enterScope (← get).scope.depth) (some location)
  emit settings (.scopeEnter (← get).scope.depth)

/-- Leaves a block: its frame is gone before the step is recorded and listeners are told. -/
def exitBlock (location : Location) : Eval σ Unit := do
  let scope := (← get).scope
  let (frame, outer) ← ofExcept scope.exit
  setScope outer
  let discarded := Text.sortNames frame.names
  -- The log and all handlers have the same list of names.
  let step ← recordShared settings (.exitScope scope.depth discarded) (some location)
  emit settings (.scopeExit scope.depth (step.discarded?.getD discarded))

/-- The operand of an integer literal. -/
def integerTerm (token : Token) : Eval σ Term := do
  let location ← locate settings token
  match Literal.integer token.text with
  | .ok number => return .value (.integer number) location
  | .error .invalid => fail (.invalidInteger token.text) (some location)
  | .error (.tooLong digits) =>
      fail (.unhandled (.tooManyDigits digits)) (← get).log.lastLocation

/-- The operand of a word: a literal, or a variable that has to be visible where it is read. -/
def wordTerm (token : Token) : Eval σ Term := do
  let location ← locate settings token
  if token.startsWithDigit then
    integerTerm settings token
  else if token.isLet then
    fail (.invalidExpression .misplacedLet) (some location)
  else if (← get).scope.has token.text then
    return .variable token.text location
  else
    fail (.variableNotFound token.text) (some location)

/-- An operand behind unary operators, of which the last one is applied first. -/
def wrap : List Token → Term → Eval σ Term
  | [], term => pure term
  | token :: outer, term => do
      match token.unary? with
      | some operator => wrap outer (.unary operator term (← locate settings token))
      | none => wrap outer term

/-- Reads a token where an operand has to stand: an operand or one more unary operator. -/
def readOperand (pending : List Pending) (unary : List Token) (token : Token) : Eval σ Phase := do
  match token.kind with
  | .string =>
      let location ← locate settings token
      return .operator pending (← wrap settings unary (.value (Literal.string token.text) location))
  | .word =>
      let term ← wordTerm settings token
      return .operator pending (← wrap settings unary term)
  | .punctuation =>
      if token.unary?.isSome then
        return .operand pending (token :: unary)
      else
        let location ← locate settings token
        if token.binary?.isSome then
          fail (.invalidExpression (.illegalOperator token.text)) (some location)
        else
          fail (.variableNotFound token.text) (some location)

/-- Reads a token behind an operand, which has to be an operator. -/
def readOperator (pending : List Pending) (term : Term) (token : Token) : Eval σ Phase := do
  let location ← locate settings token
  match token.binary? with
  | some operator => return .operand (← pushOperator settings operator location pending term) []
  | none => fail (.invalidExpression (.expectedOperator token.text)) (some location)

/-- Reads the token after `let`, which has to name a variable. -/
def readName (keyword token : Token) : Eval σ Phase := do
  if token.isIdentifier then
    let location ← locate settings token
    let scope := (← get).scope
    setScope (scope.declare token.text)
    record settings (.declare token.text scope.depth (scope.isNew token.text)) (some location)
    return .named token
  else
    fail (.invalidExpression .letWithoutName) (some (← locate settings keyword))

/-- Reads the first token of a statement. -/
def readFirst (token : Token) : Eval σ Phase :=
  if token.isLet then pure (.naming token) else readOperand settings [] [] token

/-- The value of the current statement if it ends here, before the token `next` if there is one. -/
def finish (next : Option Token) : Phase → Eval σ Value
  | .statement last => pure last
  | .naming keyword => do
      fail (.invalidExpression .letWithoutName) (some (← locate settings keyword))
  | .named _ => pure .void
  | .operand pending unary => do
      match unary, pending, next with
      | operator :: _, _, _ =>
          fail (.invalidExpression .missingOperand) (some (← locate settings operator))
      | [], top :: _, _ => fail (.invalidExpression .missingOperand) (some top.location)
      | [], [], some token => fail .noInput (some (← locate settings token))
      | [], [], none => fail .noInput none
  | .operator pending term => collapse settings pending term
  | .block value _ => pure value

/-- Reads a token that is no bracket. -/
def readToken (enclosure : Enclosure) (token : Token) (phase : Phase) : Eval σ Phase := do
  if token.isSeparator then
    let _ ← finish settings (some token) phase
    endExpression enclosure
    return .statement .void
  else
    match phase with
    | .statement _ => readFirst settings token
    | .naming keyword => readName settings keyword token
    | .named name => do readOperator settings [] (← wordTerm settings name) token
    | .operand pending unary => readOperand settings pending unary token
    | .operator pending term => readOperator settings pending term token
    | .block value location =>
        if token.binary?.isSome then
          readOperator settings [] (.value value location) token
        else
          endExpression enclosure
          readFirst settings token

/-- The operators that wait for what an opening bracket begins, which has to be an operand. -/
def beforeBracket (enclosure : Enclosure) (opener : Token) :
    Phase → Eval σ (List Pending × List Token)
  | .statement _ => pure ([], [])
  | .naming keyword => do
      fail (.invalidExpression .letWithoutName) (some (← locate settings keyword))
  | .named name => do
      let _ ← wordTerm settings name
      fail (.invalidExpression (.expectedOperator opener.text)) (some (← locate settings opener))
  | .operand pending unary => pure (pending, unary)
  | .operator _ _ => do
      fail (.invalidExpression (.expectedOperator opener.text)) (some (← locate settings opener))
  | .block _ _ => do
      endExpression enclosure
      return ([], [])

/-- What has been read behind a closing bracket. A block alone may be a whole statement. -/
def afterBracket (bracket : Bracket) (pending : List Pending) (unary : List Token) (value : Value)
    (location : Location) : Eval σ Phase :=
  match bracket, pending, unary with
  | .curly, [], [] => pure (.block value location)
  | _, pending, unary => do
      return .operator pending (← wrap settings unary (.value value location))

/-- Reads a part of a program. -/
def read (enclosure : Enclosure) : Forest → Phase → Eval σ Phase
  | .nil, phase => pure phase
  | .leaf token rest, phase => do
      advance
      read enclosure rest (← readToken settings enclosure token phase)
  | .nest bracket opener inner closer rest, phase => do
      let (pending, unary) ← beforeBracket settings enclosure opener phase
      let location ← locate settings opener
      advance
      let group ← openGroup settings bracket location
      let value ← match bracket with
        | .round => do
            let phase ← read (.parenthesis group) inner (.operand [] [])
            let value ← finish settings closer phase
            closeGroup closer
            pure value
        | .curly => do
            enterBlock settings location
            let phase ← read .statements inner (.statement .void)
            let value ← finish settings closer phase
            closeGroup closer
            exitBlock settings location
            pure value
      read enclosure rest (← afterBracket settings bracket pending unary value location)

/--
Evaluates tokens as a program, after a check of their brackets. A closer without an opener is looked
for once more behind the last statement.
-/
def evaluate (tokens : List Token) : Eval σ Value := do
  match Forest.ofTokens tokens with
  | .ok forest =>
      let stray := Forest.stray? tokens
      let value ← finish settings stray (← read settings .statements forest (.statement .void))
      match stray with
      | none => return value
      | some token => fail (.bracketMismatch token.text) (some (← locate settings token))
  | .error token => fail (.bracketMismatch token.text) (some (← locate settings token))

/-- Evaluates the program of the session, from the first call of a handler to the last step. -/
def program : Eval σ Value := do
  emit settings .parseStart
  record settings (.parse (← get).program.length) none
  evaluate settings (← get).program

end Eval

end BlockCalc
