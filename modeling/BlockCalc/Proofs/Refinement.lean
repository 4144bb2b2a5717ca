import BlockCalc.Proofs.Deeds
import BlockCalc.Proofs.Literal
import BlockCalc.Proofs.Precedence
import BlockCalc.Proofs.Spine

/-!
# Reading an expression evaluates its tree

An expression without assignments and blocks is evaluated while it is read, and the result is the
value of its tree. The induction is on the tree: after the tokens of a subtree, the operators that
have been pending before are pending still, and those above them, with the last operand, are the
right edge of the subtree.
-/

namespace BlockCalc

variable {σ : Type} {scope : Scope}

namespace Tree

/-- The forest of the tokens of a tree. -/
def forest : Tree → Forest
  | atom token => .leaf token .nil
  | unary _ token operand => .leaf token operand.forest
  | parens opener inner closer => .nest .round opener inner.forest closer .nil
  | binary _ token left right => left.forest.append (.leaf token right.forest)

theorem tokens_forest (tree : Tree) : tree.forest.tokens = tree.tokens := by
  induction tree with
  | atom token => rfl
  | unary operator token operand ih => simp [forest, Forest.tokens, tokens, ih]
  | parens opener inner closer ih => simp [forest, Forest.tokens, tokens, ih]
  | binary operator token left right ihLeft ihRight =>
      simp [forest, Forest.tokens, tokens, ihLeft, ihRight]

theorem matched_forest {tree : Tree} (written : tree.Written) : tree.forest.Matched := by
  induction tree with
  | atom token =>
      have plain := Token.plain_of_kind written
      exact ⟨plain.opens, plain.closes, trivial⟩
  | unary operator token operand ih =>
      have plain := Token.plain_of_unary? written.1
      exact ⟨plain.opens, plain.closes, ih written.2⟩
  | parens opener inner closer ih =>
      exact ⟨written.1, ⟨closer, rfl, written.2.1⟩, ih written.2.2, trivial⟩
  | binary operator token left right ihLeft ihRight =>
      rcases written with ⟨writes, _, leftWritten, rightWritten⟩
      have plain := Token.plain_of_binary? writes
      exact (ihLeft leftWritten).append ⟨plain.opens, plain.closes, ihRight rightWritten⟩

/-- The tree behind unary operators, of which the last one is applied first. -/
def under : List Token → Tree → Tree
  | [], tree => tree
  | token :: outer, tree =>
      match token.unary? with
      | some operator => under outer (unary operator token tree)
      | none => under outer tree

end Tree

theorem Token.Known.isLet_eq_false {token : Token} (known : token.Known scope) :
    token.isLet = false := by
  cases known with
  | string string => simp [Token.isLet, string]
  | integer word starts number valid => exact Token.isLet_eq_false_of_startsWithDigit starts
  | «variable» identifier visible =>
      simp only [Token.isIdentifier, Bool.and_eq_true, Bool.not_eq_true'] at identifier
      exact identifier.2

namespace Eval

variable {settings : Settings σ}

theorem stands_wrapped (site : Token → Location) {tree : Tree} {term : Term}
    (stands : term.Stands scope tree) (front : List Token) :
    (term.wrapped site front).Stands scope (.under front tree) := by
  induction front generalizing tree term with
  | nil => exact stands
  | cons token outer ih =>
      simp only [Term.wrapped, Tree.under]
      cases token.unary? with
      | none => exact ih stands
      | some operator =>
          apply ih
          refine ⟨?_, stands.skippable⟩
          simp only [Term.value?, Tree.value?, stands.resolves]

/-- A word that is known is an operand that stands for itself. -/
theorem exists_isTerm_of_known {token : Token} (word : token.kind = .word)
    (known : token.Known scope) (settings : Settings σ) {session : Session σ}
    (sameScope : session.scope = scope) :
    ∃ term, token.IsTerm settings session term ∧ term.Stands scope (.atom token) := by
  subst sameScope
  cases known with
  | string string => simp [string] at word
  | integer _ starts number valid =>
      have computed : Tree.value? session.scope (.atom token) false = some (.integer number) := by
        simp [Tree.value?, Token.value?, word, starts, valid, Except.toOption]
      exact ⟨_, .number starts valid, computed.symm, Option.isSome_iff_exists.mpr ⟨_, computed⟩⟩
  | «variable» identifier visible =>
      have noDigit := Token.startsWithDigit_of_isIdentifier identifier
      have noLet := Token.isLet_eq_false_of_isIdentifier identifier
      rcases Scope.exists_read?_of_has visible with ⟨value, reads⟩
      have computed : Tree.value? session.scope (.atom token) false = some value := by
        simp [Tree.value?, Token.value?, word, noDigit, reads]
      exact ⟨_, .variable noDigit noLet visible, reads.trans computed.symm,
        Option.isSome_iff_exists.mpr ⟨_, computed⟩⟩

/--
The pending operators and the operand are the right edge of the tree: closing the branches over the
last tree gives the whole, and the branches bind more loosely from the inside outward.
-/
structure RightEdge (scope : Scope) (tree : Tree) (pending : List Pending) (term : Term)
    (branches : List Branch) (last : Tree) : Prop where
  waits : pending.Forall₂ (Waits scope) branches
  stands : term.Stands scope last
  closes : Branch.closeAll branches last = tree
  sorted : branches.Pairwise fun inner outer => inner.operator.priority < outer.operator.priority
  below : ∀ branch ∈ branches, branch.operator.priority < tree.level

theorem RightEdge.single {tree : Tree} {term : Term} (stands : term.Stands scope tree) :
    RightEdge scope tree [] term [] tree where
  waits := .nil
  stands := stands
  closes := rfl
  sorted := .nil
  below := by simp

/-- The right edge of the right child and the branch over it are the right edge of the node. -/
theorem RightEdge.close {right last : Tree} {pending : List Pending} {term : Term}
    {branches : List Branch} (edge : RightEdge scope right pending term branches last)
    {top : Pending} {branch : Branch} (waits : Waits scope top branch)
    (tight : right.level ≤ branch.operator.priority) :
    RightEdge scope (branch.close right) (pending ++ [top]) term (branches ++ [branch]) last where
  waits := List.rel_append edge.waits (.cons waits .nil)
  stands := edge.stands
  closes := by
    rw [Branch.closeAll, List.foldl_append]
    exact congrArg branch.close edge.closes
  sorted := by
    refine List.pairwise_append.mpr ⟨edge.sorted, List.pairwise_singleton _ _, ?_⟩
    intro inner member outer isBranch
    rw [List.mem_singleton.mp isBranch]
    exact Nat.lt_of_lt_of_le (edge.below inner member) tight
  below := by
    intro inner member
    rcases List.mem_append.mp member with inside | isBranch
    · exact Nat.lt_succ_of_lt (Nat.lt_of_lt_of_le (edge.below inner inside) tight)
    · rw [List.mem_singleton.mp isBranch]
      exact Nat.lt_succ_self _

/-- An operand has been read, and the right edge of the tree is on top of the outer operators. -/
def EdgeRead (scope : Scope) (tree : Tree) (outer : List Pending) (phase : Phase) : Prop :=
  ∃ pending term branches last, phase = .operator (pending ++ outer) term ∧
    RightEdge scope tree pending term branches last

theorem EdgeRead.single {tree : Tree} {term : Term} (stands : term.Stands scope tree)
    (outer : List Pending) : EdgeRead scope tree outer (.operator outer term) :=
  ⟨[], term, [], tree, rfl, .single stands⟩

theorem EdgeRead.close {right : Tree} {outer : List Pending} {phase : Phase} {top : Pending}
    (edgeRead : EdgeRead scope right (top :: outer) phase) {branch : Branch}
    (waits : Waits scope top branch) (tight : right.level ≤ branch.operator.priority) :
    EdgeRead scope (branch.close right) outer phase := by
  rcases edgeRead with ⟨pending, term, branches, last, rfl, edge⟩
  exact ⟨pending ++ [top], term, branches ++ [branch], last, by simp, edge.close waits tight⟩

/--
Wherever the operators that are pending bind more loosely than the tree, reading its tokens puts its
right edge on top of them. Unary operators stand only in front of an operand.
-/
def ReadsTree (settings : Settings σ) (scope : Scope) (tree : Tree) : Prop :=
  ∀ (enclosure : Enclosure) (outer : List Pending) (front : List Token) (session : Session σ),
    session.scope = scope → session.groups.length + tree.depth ≤ settings.nesting.levels →
    (∀ top ∈ outer.head?, tree.level ≤ top.operator.priority) →
    (0 < tree.level → front = []) →
      Ensures (read settings enclosure tree.forest (.operand outer front)) session
        (fun phase after => session.Alike after ∧ EdgeRead scope (.under front tree) outer phase)
        (fun _ _ => tree.value? scope true = none)

theorem readsTree_atom {token : Token} (leaf : token.kind ≠ .punctuation)
    (known : token.Known scope) : ReadsTree settings scope (.atom token) := by
  intro enclosure outer front session sameScope _ _ _
  let advanced : Session σ := { session with position := session.position + 1 }
  have reads : ∃ term : Term, term.Stands scope (.atom token) ∧
      Leads settings advanced enclosure token (.operand outer front)
        (.operator outer (term.wrapped (advanced.site settings) front)) := by
    cases kind : token.kind with
    | string =>
        have computed (skipped : Bool) : Tree.value? scope (.atom token) skipped =
            some (Literal.string token.text) := by
          simp [Tree.value?, Token.value?, kind]
        exact ⟨.value (Literal.string token.text) (advanced.site settings token),
          ⟨(computed false).symm, Option.isSome_iff_exists.mpr ⟨_, computed true⟩⟩,
          .string (.operand outer front) kind⟩
    | word =>
        have scopeThere : advanced.scope = scope := sameScope
        rcases exists_isTerm_of_known kind known settings scopeThere with ⟨term, isTerm, stands⟩
        exact ⟨term, stands, .word (.operand outer front) kind isTerm⟩
    | punctuation => exact absurd kind leaf
  rcases reads with ⟨term, stands, leads⟩
  rw [Tree.forest, Ensures, read_leaf_of_ok leads.run_eq]
  exact ⟨⟨rfl, rfl⟩, .single (stands_wrapped _ stands front) outer⟩

theorem readsTree_unary {operator : UnaryOp} {token : Token} {operand : Tree}
    (writes : token.unary? = some operator) (tight : operand.level = 0)
    (reads : ReadsTree settings scope operand) :
    ReadsTree settings scope (.unary operator token operand) := by
  intro enclosure outer front session sameScope shallow _ _
  let advanced : Session σ := { session with position := session.position + 1 }
  have leads : Leads settings advanced enclosure token (.operand outer front) _ :=
    .unary (.operand outer front) (Token.kind_of_unary? writes) (Option.isSome_of_eq_some writes)
  have readsOperand := reads enclosure outer (token :: front) advanced sameScope shallow
    (fun _ _ => by rw [tight]; exact Nat.zero_le _)
    (fun loose => absurd loose (by omega))
  simp only [Tree.under, writes] at readsOperand
  rw [Tree.forest, Ensures, read_leaf_of_ok leads.run_eq]
  apply readsOperand.imp
  rintro phase after ⟨alike, edge⟩
  exact ⟨⟨alike.scope, alike.brackets⟩, edge⟩

/-- Where nothing else is pending, the end of an expression evaluates its tree. -/
theorem ensures_finish (quiet : settings.hooks = .none) {tree : Tree} {phase : Phase}
    (edgeRead : EdgeRead scope tree [] phase) (next : Option Token) {session : Session σ}
    (sameScope : session.scope = scope) :
    Ensures (finish settings next phase) session
      (fun value after => session.Alike after ∧ tree.value? scope false = some value)
      (fun _ _ => tree.value? scope false = none) := by
  rcases edgeRead with ⟨pending, term, branches, last, rfl, edge⟩
  rw [List.append_nil, ← edge.closes]
  exact ensures_collapse quiet edge.waits edge.stands sameScope

theorem ensures_openGroup_shallow (bracket : Bracket) (location : Location) {session : Session σ}
    (shallow : session.groups.length < settings.nesting.levels) :
    Ensures (openGroup settings bracket location) session
      (fun _ after => after.scope = session.scope ∧
        after.brackets = bracket :: session.brackets)
      (fun _ _ => False) := by
  simp only [openGroup, ensures_bind, ensures_get, Nat.not_le.mpr shallow, if_false, ensures_set,
    ensures_pure]
  exact ⟨trivial, rfl⟩

theorem ensures_closeGroup_opened {session : Session σ} {bracket : Bracket} {outer : List Bracket}
    (opened : session.brackets = bracket :: outer) {closer : Token}
    (closes : closer.closes? = some bracket) :
    Ensures (closeGroup closer) session
      (fun _ after => after.scope = session.scope ∧ after.brackets = outer)
      (fun _ _ => False) := by
  rcases List.map_eq_cons_iff.mp opened with ⟨group, others, groups, rfl, rfl⟩
  rw [Ensures, closeGroup_of_open groups closes]
  exact ⟨rfl, rfl⟩

/-- What stands in round brackets is evaluated at the closing one. -/
theorem ensures_contents (quiet : settings.hooks = .none) {inner : Tree}
    (reads : ReadsTree settings scope inner) (enclosure : Enclosure) {closer : Token}
    (closes : closer.closes? = some .round) {session : Session σ}
    (sameScope : session.scope = scope)
    (shallow : session.groups.length + inner.depth ≤ settings.nesting.levels)
    {outer : List Bracket} (opened : session.brackets = .round :: outer) :
    Ensures (contents settings enclosure (.operand [] []) inner.forest closer) session
      (fun value after => inner.value? scope false = some value ∧ after.scope = session.scope ∧
        after.brackets = outer)
      (fun _ _ => inner.value? scope false = none) := by
  have nothingPending : ∀ top ∈ ([] : List Pending).head?, inner.level ≤ top.operator.priority :=
    fun _ member => by cases member
  simp only [contents]
  rw [ensures_bind]
  apply (reads enclosure [] [] session sameScope shallow nothingPending fun _ => rfl).mono
  · rintro phase middle ⟨alike, edgeRead⟩
    apply (ensures_finish quiet edgeRead (some closer)
      (alike.scope.symm.trans sameScope)).bind
    rintro value finished ⟨stillAlike, evaluated⟩
    have same := alike.trans stillAlike
    have stillOpened : finished.brackets = .round :: outer := same.brackets.symm.trans opened
    apply (ensures_closeGroup_opened stillOpened closes).of_infallible.bind
    rintro _ after ⟨sameScopeAfter, closed⟩
    exact ⟨evaluated, sameScopeAfter.trans same.scope.symm, closed⟩
  · intro _ _ failed
    exact Tree.value?_of_skipped failed

theorem readsTree_parens (quiet : settings.hooks = .none) {opener closer : Token}
    (closes : closer.closes? = some .round) {inner : Tree}
    (reads : ReadsTree settings scope inner) :
    ReadsTree settings scope (.parens opener inner closer) := by
  intro enclosure outer front session sameScope shallow _ _
  simp only [Tree.depth] at shallow
  rw [Tree.forest, read_nest]
  simp only [beforeBracket, pure_bind, read_nil, bind_pure]
  rw [ensures_bind, ensures_locate, ensures_bind, ensures_advance]
  apply (ensures_openGroup_shallow .round _ (show _ < _ by simp only; omega)).of_infallible.bind
  rintro group opened ⟨scopeThere, bracketsThere⟩
  simp only at scopeThere
  have innerShallow : opened.groups.length + inner.depth ≤ settings.nesting.levels := by
    rw [← opened.length_brackets, bracketsThere, List.length_cons, Session.length_brackets]
    simp only
    omega
  apply (ensures_contents quiet reads (.parenthesis group) closes (scopeThere.trans sameScope)
    innerShallow bracketsThere).bind
  rintro value closed ⟨evaluated, scopeAfter, bracketsAfter⟩
  have stands (location : Location) :
      (Term.value value location).Stands scope (.parens opener inner closer) :=
    ⟨evaluated.symm, Option.isSome_iff_exists.mpr ⟨value, evaluated⟩⟩
  rw [ensures_afterBracket]
  exact ⟨⟨(scopeAfter.trans scopeThere).symm, bracketsAfter.symm⟩,
    .single (stands_wrapped _ (stands _) front) outer⟩

/-- The operator behind a tree takes it as its left child. -/
theorem ensures_readToken_binary (quiet : settings.hooks = .none) {operator : BinaryOp}
    {token : Token} (writes : token.binary? = some operator)
    (plain : operator.isAssignment = false) (enclosure : Enclosure) {left : Tree}
    (tight : left.level ≤ operator.priority + 1) {outer : List Pending}
    (looser : ∀ top ∈ outer.head?, operator.priority < top.operator.priority) {phase : Phase}
    (edgeRead : EdgeRead scope left outer phase) {session : Session σ}
    (sameScope : session.scope = scope) :
    Ensures (readToken settings enclosure token phase) session
      (fun next after => session.Alike after ∧ ∃ top, next = .operand (top :: outer) [] ∧
        Waits scope top { operator, token, left })
      (fun _ _ => left.value? scope false = none) := by
  rcases edgeRead with ⟨pending, term, branches, last, rfl, edge⟩
  have tighter : ∀ branch ∈ branches, branch.operator.priority ≤ operator.priority :=
    fun branch member => Nat.le_of_lt_succ (Nat.lt_of_lt_of_le (edge.below branch member) tight)
  rw [Ensures, (Does.pushes (.operator (pending ++ outer) term) writes).run_eq]
  have pushes := ensures_pushOperator quiet plain token (session.site settings token)
    edge.waits edge.sorted tighter looser edge.stands sameScope
  rw [edge.closes] at pushes
  apply pushes.bind
  rintro pushed after ⟨alike, top, rfl, waits⟩
  exact ⟨alike, top, rfl, waits⟩

theorem readsTree_binary (quiet : settings.hooks = .none) {operator : BinaryOp} {token : Token}
    {left right : Tree} (writes : token.binary? = some operator)
    (plain : operator.isAssignment = false) (leftTight : left.level ≤ operator.priority + 1)
    (rightTight : right.level ≤ operator.priority) (readsLeft : ReadsTree settings scope left)
    (readsRight : ReadsTree settings scope right) :
    ReadsTree settings scope (.binary operator token left right) := by
  intro enclosure outer front session sameScope shallow looser noFront
  simp only [Tree.depth] at shallow
  cases noFront (Nat.succ_pos _)
  have leftLooser : ∀ top ∈ outer.head?, left.level ≤ top.operator.priority :=
    fun top isTop => Nat.le_trans leftTight (looser top isTop)
  rw [Tree.forest, read_append, ensures_bind]
  apply (readsLeft enclosure outer [] session sameScope (by omega) leftLooser fun _ => rfl).mono
  · rintro phase middle ⟨alike, edgeRead⟩
    have scopeThere := alike.scope.symm.trans sameScope
    rw [read_leaf, ensures_bind, ensures_advance, ensures_bind]
    have advanced : Ensures (readToken settings enclosure token phase)
        { middle with position := middle.position + 1 } _ _ :=
      ensures_readToken_binary quiet writes plain enclosure leftTight looser edgeRead scopeThere
    apply advanced.mono
    · rintro next pushed ⟨stillAlike, top, rfl, waits⟩
      have pushedAlike : session.Alike pushed :=
        ⟨alike.scope.trans stillAlike.scope, alike.brackets.trans stillAlike.brackets⟩
      have rightLooser : ∀ first ∈ (top :: outer).head?,
          right.level ≤ first.operator.priority := by
        intro first isFirst
        cases isFirst
        rw [waits.operator]
        exact rightTight
      have rightShallow : pushed.groups.length + right.depth ≤ settings.nesting.levels := by
        rw [← pushedAlike.length_groups]
        omega
      apply (readsRight enclosure (top :: outer) [] pushed
        (pushedAlike.scope.symm.trans sameScope) rightShallow rightLooser fun _ => rfl).mono
      · rintro last after ⟨rightAlike, rightRead⟩
        exact ⟨pushedAlike.trans rightAlike, EdgeRead.close rightRead waits rightTight⟩
      · intro _ _ failed
        exact Tree.value?_binary_of_right failed true
    · intro _ _ failed
      simp [Tree.value?, failed]
  · intro _ _ failed
    have leftFailed := Tree.value?_of_skipped failed
    simp [Tree.value?, leftFailed]

/-- Reading the tokens of an expression puts the right edge of its tree on the stack. -/
theorem readsTree (quiet : settings.hooks = .none) {tree : Tree} (written : tree.Written)
    (ordered : tree.Ordered)
    (known : ∀ token ∈ tree.tokens, token.kind ≠ .punctuation → token.Known scope) :
    ReadsTree settings scope tree := by
  induction tree with
  | atom token => exact readsTree_atom written (known token (by simp [Tree.tokens]) written)
  | unary operator token operand ih =>
      rcases List.forall_mem_cons.mp known with ⟨_, operandKnown⟩
      exact readsTree_unary written.1 ordered.1 (ih written.2 ordered.2 operandKnown)
  | parens opener inner closer ih =>
      rcases List.forall_mem_cons.mp known with ⟨_, insideKnown⟩
      rcases List.forall_mem_append.mp insideKnown with ⟨innerKnown, _⟩
      exact readsTree_parens quiet written.2.1 (ih written.2.2 ordered innerKnown)
  | binary operator token left right ihLeft ihRight =>
      rcases written with ⟨writes, plain, leftWritten, rightWritten⟩
      rcases ordered with ⟨leftTight, rightTight, leftOrdered, rightOrdered⟩
      rcases List.forall_mem_append.mp known with ⟨leftKnown, behindKnown⟩
      rcases List.forall_mem_cons.mp behindKnown with ⟨_, rightKnown⟩
      exact readsTree_binary quiet writes plain leftTight rightTight
        (ihLeft leftWritten leftOrdered leftKnown) (ihRight rightWritten rightOrdered rightKnown)

theorem readToken_first (enclosure : Enclosure) {token : Token} (plain : token.Plain)
    (noLet : token.isLet = false) (last : Value) :
    readToken settings enclosure token (.statement last) =
      readToken settings enclosure token (.operand [] []) := by
  rw [readToken_of_awaits (.begins (.first last)) plain.separator fun _ => noLet,
    readToken_of_awaits (.operand [] []) plain.separator fun _ => noLet]

/-- A statement that starts with an expression is read as an operand is. -/
theorem read_first {tree : Tree} (written : tree.Written)
    (known : ∀ token ∈ tree.tokens, token.kind ≠ .punctuation → token.Known scope)
    (enclosure : Enclosure) (rest : Forest) (last : Value) :
    read settings enclosure (tree.forest.append rest) (.statement last) =
      read settings enclosure (tree.forest.append rest) (.operand [] []) := by
  induction tree generalizing rest with
  | atom token =>
      have noLet := (known token (by simp [Tree.tokens]) written).isLet_eq_false
      simp only [Tree.forest, Forest.append, read_leaf,
        readToken_first enclosure (Token.plain_of_kind written) noLet]
  | unary operator token operand _ =>
      have noLet : token.isLet = false := by
        simp [Token.isLet, Token.kind_of_unary? written.1]
      simp only [Tree.forest, Forest.append, read_leaf,
        readToken_first enclosure (Token.plain_of_unary? written.1) noLet]
  | parens opener inner closer _ =>
      simp only [Tree.forest, Forest.append, read_nest, beforeBracket]
  | binary operator token left right ih _ =>
      rcases List.forall_mem_append.mp known with ⟨leftKnown, _⟩
      rw [Tree.forest, Forest.append_assoc]
      exact ih written.2.2.1 leftKnown _

/-- An expression as a whole program gives the value of its tree. -/
theorem ensures_statements_tree (quiet : settings.hooks = .none) {tree : Tree}
    (written : tree.Written) (ordered : tree.Ordered) {session : Session σ}
    (known : ∀ token ∈ tree.tokens, token.kind ≠ .punctuation → token.Known session.scope)
    (closed : session.groups = []) (shallow : tree.depth ≤ settings.nesting.levels) :
    Ensures (statements settings tree.forest) session
      (fun value _ => tree.value? session.scope false = some value)
      (fun _ _ => tree.value? session.scope false = none) := by
  have first : read settings .statements tree.forest (.statement .void) =
      read settings .statements tree.forest (.operand [] []) := by
    simpa only [Forest.append_nil] using read_first written known .statements .nil .void
  rw [statements, first, ensures_bind]
  have groupsShallow : session.groups.length + tree.depth ≤ settings.nesting.levels := by
    simpa [closed] using shallow
  apply (readsTree quiet written ordered known .statements [] [] session rfl groupsShallow
    (fun _ member => by cases member) fun _ => rfl).mono
  · rintro phase middle ⟨alike, edgeRead⟩
    apply (ensures_finish quiet edgeRead none alike.scope.symm).imp
    rintro value after ⟨_, evaluated⟩
    exact evaluated
  · intro _ _ failed
    exact Tree.value?_of_skipped failed

end Eval

namespace Session

/--
Where the tokens that wait write an expression over known literals and variables, they have exactly
one ordered tree, and the evaluation gives a value if and only if that tree has it.
-/
theorem parse_expression {settings : Settings σ} (quiet : settings.hooks = .none)
    (session : Session σ) (text : String)
    (expression : Grammar .expression settings.nesting.levels (session.feed text).lexer.tokens)
    (known : ∀ token ∈ (session.feed text).lexer.tokens, token.kind ≠ .punctuation →
      token.Known session.scope) :
    ∃ tree : Tree, tree.Spells (session.feed text).lexer.tokens ∧
      (∀ other : Tree, other.Spells (session.feed text).lexer.tokens → other = tree) ∧
      ∀ value, (session.parse settings text).1 = .ok value ↔
        tree.value? session.scope false = some value := by
  rcases Tree.exists_spells expression with ⟨tree, spells, shallow, _⟩
  refine ⟨tree, spells, fun other otherSpells => spells.unique otherSpells, ?_⟩
  have found : Forest.ofTokens (session.feed text).lexer.tokens = .ok tree.forest :=
    Forest.ofTokens_eq_ok_iff.mpr
      ⟨Tree.matched_forest spells.written, tree.tokens_forest.trans spells.tokens_eq⟩
  rcases parse_of_forest quiet found with ⟨log, parsed⟩
  rw [← spells.tokens_eq] at known
  have spec : Eval.Ensures (Eval.statements settings tree.forest)
      { (session.feed text).prepare with log } _ _ :=
    Eval.ensures_statements_tree quiet spells.written spells.ordered known rfl shallow
  intro value
  cases ran : Eval.statements settings tree.forest { (session.feed text).prepare with log } with
  | ok result finished =>
      have evaluated : tree.value? session.scope false = some result := spec.of_ok ran
      rw [parsed, ran, evaluated]
      simp
  | error failure finished =>
      have failed : tree.value? session.scope false = none := spec.of_error ran
      rw [parsed, ran, failed]
      simp

theorem parse_expression_stopping_early :
    let zero : Token := { kind := .word, text := "0", start := {} }
    let and : Token := { kind := .punctuation, text := "&&", start := { column := 3 } }
    let minus : Token := { kind := .punctuation, text := "-", start := { column := 6 } }
    let letter : Token := { kind := .string, text := "\"a\"", start := { column := 7 } }
    let or : Token := { kind := .punctuation, text := "||", start := { column := 11 } }
    let five : Token := { kind := .word, text := "5", start := { column := 14 } }
    let session : Session Unit :=
      { fresh () with
        lexer := { tokens := [zero, and, minus, letter, or, five, or, minus, letter] } }
    (session.parse {} "").1 = .ok (.integer 1) ∧
      letter.value? session.scope = some (.text "a") ∧
      UnaryOp.neg.apply (.text "a") =
        .error (.invalidExpression (.notInteger .neg (.text "a"))) := by
  intro zero and minus letter or five session
  refine ⟨?_, by decide, rfl⟩
  have known : ∀ token ∈ [zero, and, minus, letter, or, five, or, minus, letter],
      token.kind ≠ .punctuation → token.Known session.scope := by
    intro token member
    simp only [List.mem_cons, List.not_mem_nil, or_false] at member
    rcases member with rfl | rfl | rfl | rfl | rfl | rfl | rfl | rfl | rfl
    · exact fun _ => .integer rfl (by decide) 0 (by decide)
    · exact absurd rfl
    · exact absurd rfl
    · exact fun _ => .string rfl
    · exact absurd rfl
    · exact fun _ => .integer rfl (by decide) 5 (by decide)
    · exact absurd rfl
    · exact absurd rfl
    · exact fun _ => .string rfl
  have leaves : zero.kind ≠ .punctuation ∧ letter.kind ≠ .punctuation ∧
      five.kind ≠ .punctuation := by
    decide
  have negated : Grammar .operand 200 [minus, letter] :=
    .unary rfl (.atom leaves.2.1)
  have expression :
      Grammar .expression 200 [zero, and, minus, letter, or, five, or, minus, letter] :=
    .binary (.binary (.binary (.single (.atom leaves.1)) rfl rfl negated) rfl rfl
      (.atom leaves.2.2)) rfl rfl negated
  have quiet : ({} : Settings Unit).hooks = .none := rfl
  rcases parse_expression quiet session "" expression known with ⟨tree, _, unique, evaluates⟩
  let dropped : Tree := .unary .neg minus (.atom letter)
  let expected : Tree :=
    .binary .or or (.binary .or or (.binary .and and (.atom zero) dropped) (.atom five)) dropped
  have droppedWritten : dropped.Written := ⟨rfl, leaves.2.1⟩
  have droppedOrdered : dropped.Ordered := ⟨rfl, trivial⟩
  have spells : expected.Spells [zero, and, minus, letter, or, five, or, minus, letter] :=
    { tokens_eq := rfl
      written :=
        ⟨rfl, rfl, ⟨rfl, rfl, ⟨rfl, rfl, leaves.1, droppedWritten⟩, leaves.2.2⟩, droppedWritten⟩
      ordered :=
        ⟨by decide, by decide, ⟨by decide, by decide, ⟨by decide, by decide, trivial,
          droppedOrdered⟩, trivial⟩, droppedOrdered⟩ }
  rw [evaluates, ← unique expected spells]
  have values : zero.value? session.scope = some (.integer 0) ∧
      five.value? session.scope = some (.integer 5) ∧
      letter.value? session.scope = some (.text "a") := by
    decide
  simp only [expected, dropped, Tree.value?, values]
  decide

end Session

end BlockCalc
