import BlockCalc.Proofs.Quiet
import BlockCalc.Proofs.Tree
import Mathlib.Data.List.Forall2

/-!
# Pending operators and trees

Reading an expression builds no tree, but the pending operators and the last operand hold one: each
pending operator is a node on the right edge that waits for its right child. A pending operator may
hold more than one operand, which is a tree that leans to the left. Reducing computes the value of a
node, so a stack that is reduced from its top computes the value of the whole tree.
-/

namespace BlockCalc

variable {σ : Type} {scope : Scope}

/-- The value of an operand, if it has one. -/
def Term.value? (scope : Scope) : Term → Option Value
  | .variable name _ => scope.read? name
  | .value computed _ => some computed
  | .unary operator operand _ => do (operator.apply (← operand.value? scope)).toOption

/-- The value that operands combine to with the value before them. -/
def combine? (scope : Scope) (operator : BinaryOp) : Value → List Term → Option Value
  | value, [] => some value
  | value, term :: rest => do
      if decides operator value then
        some value
      else
        let right ← term.value? scope
        combine? scope operator (← (operator.apply value right).toOption) rest

/-- The value that all operands of an operator combine to. -/
def gathered? (scope : Scope) (operator : BinaryOp) : List Term → Option Value
  | [] => none
  | first :: rest => do combine? scope operator (← first.value? scope) rest

theorem combine?_append (operator : BinaryOp) (value : Value) (terms others : List Term) :
    combine? scope operator value (terms ++ others) = (do
      combine? scope operator (← combine? scope operator value terms) others) := by
  induction terms generalizing value with
  | nil => rfl
  | cons term rest ih =>
      cases decided : decides operator value with
      | true =>
          have settled : combine? scope operator value others = some value := by
            cases others <;> simp [combine?, decided]
          simp [combine?, decided, settled]
      | false => simp [combine?, decided, ih, Option.bind_assoc]

namespace Eval

variable {settings : Settings σ}

theorem ensures_resolve (term : Term) (session : Session σ) :
    Ensures (resolve term) session
      (fun value after => after = session ∧ term.value? session.scope = some value)
      (fun _ _ => term.value? session.scope = none) := by
  induction term with
  | «variable» name location =>
      simp only [resolve, ensures_bind, ensures_get, ensures_locating, Scope.read, Term.value?]
      cases found : session.scope.read? name with
      | some value => exact ⟨rfl, rfl⟩
      | none => exact rfl
  | value value location => exact ⟨rfl, rfl⟩
  | unary operator operand location ih =>
      simp only [resolve, ensures_bind, ensures_locating, Term.value?]
      apply ih.mono
      · rintro value after ⟨rfl, resolved⟩
        simp only [resolved, Option.bind_eq_bind, Option.bind_some]
        cases operator.apply value with
        | ok result => exact ⟨rfl, rfl⟩
        | error cause => exact rfl
      · intro _ _ unresolved
        simp [unresolved]

theorem ensures_combine (operator : BinaryOp) (value : Value) (terms : List Term)
    (session : Session σ) :
    Ensures (combine operator value terms) session
      (fun result after =>
        after = session ∧ combine? session.scope operator value terms = some result)
      (fun _ _ => combine? session.scope operator value terms = none) := by
  induction terms generalizing value with
  | nil => exact ⟨rfl, rfl⟩
  | cons term rest ih =>
      simp only [combine, combine?]
      cases decides operator value with
      | true => exact ⟨rfl, rfl⟩
      | false =>
          simp only [Bool.false_eq_true, if_false, ensures_bind]
          apply (ensures_resolve term session).mono
          · rintro right after ⟨rfl, resolved⟩
            simp only [resolved, Option.bind_eq_bind, Option.bind_some]
            cases operator.apply value right with
            | ok combined => exact ih combined
            | error cause => exact rfl
          · intro _ _ unresolved
            simp [unresolved]

/-- A reduction combines the operands of an operator. -/
theorem ensures_reduce (quiet : settings.hooks = .none) {pending : Pending}
    (plain : pending.operator.isAssignment = false) (enough : 2 ≤ pending.operands.length)
    (session : Session σ) :
    Ensures (reduce settings pending) session
      (fun value after => session.Alike after ∧
        gathered? session.scope pending.operator pending.operands = some value)
      (fun _ _ => gathered? session.scope pending.operator pending.operands = none) := by
  rcases pending with ⟨operator, operands, location⟩
  rcases operands with _ | ⟨first, _ | ⟨second, rest⟩⟩
  · simp at enough
  · simp at enough
  · simp only at plain
    simp only [reduce, ensures_bind, ensures_locating, plain, Bool.false_eq_true, if_false,
      gathered?]
    apply (ensures_record quiet _ _ session).mono
    · intro _ recorded alike
      apply (ensures_resolve first recorded).mono
      · rintro value after ⟨rfl, resolved⟩
        rw [← alike.scope] at resolved
        simp only [resolved, Option.bind_eq_bind, Option.bind_some]
        apply (ensures_combine operator value (second :: rest) after).mono
        · rintro result last ⟨rfl, combined⟩
          rw [← alike.scope] at combined
          exact ⟨alike, combined⟩
        · intro _ _ uncombined
          rw [← alike.scope] at uncombined
          exact uncombined
      · intro _ _ unresolved
        rw [← alike.scope] at unresolved
        simp [unresolved]
    · intro _ _ impossible
      exact impossible.elim

end Eval

namespace Tree

/-- Skipping leaves nothing out at a binary operator itself. -/
theorem value?_binary_skipped (operator : BinaryOp) (token : Token) (left right : Tree)
    (skipped : Bool) :
    (binary operator token left right).value? scope skipped =
      (binary operator token left right).value? scope false :=
  rfl

/-- A tree has no value if something in it has none even where the tree is skipped. -/
theorem value?_of_skipped {tree : Tree} (failed : tree.value? scope true = none) :
    tree.value? scope false = none := by
  induction tree with
  | unary operator token operand ih =>
      have operandFailed := ih failed
      simp [value?, operandFailed]
  | _ => exact failed

theorem value?_binary_of_right {operator : BinaryOp} {token : Token} {left right : Tree}
    (failed : right.value? scope true = none) (skipped : Bool) :
    (binary operator token left right).value? scope skipped = none := by
  have unskipped := value?_of_skipped failed
  cases evaluated : left.value? scope false <;> simp [value?, evaluated, failed, unskipped]

end Tree

/-- The operand resolves to the value of the tree, and the tree may be skipped. -/
structure Term.Stands (scope : Scope) (tree : Tree) (term : Term) : Prop where
  resolves : term.value? scope = tree.value? scope false
  skippable : (tree.value? scope true).isSome = true

theorem Term.stands_value {operator : BinaryOp} {token : Token} {left right : Tree} {value : Value}
    (evaluated : (Tree.binary operator token left right).value? scope false = some value)
    (location : Location) :
    Term.Stands scope (.binary operator token left right) (.value value location) where
  resolves := evaluated.symm
  skippable := by
    rw [Tree.value?_binary_skipped, evaluated]
    rfl

/-- A binary operator that waits for its right child. -/
structure Branch where
  operator : BinaryOp
  token : Token
  left : Tree

namespace Branch

/-- The node that a right child completes. -/
def close (branch : Branch) (right : Tree) : Tree :=
  .binary branch.operator branch.token branch.left right

/-- The tree whose right edge the branches are, from the innermost one outward. -/
def closeAll (branches : List Branch) (tree : Tree) : Tree :=
  branches.foldl (fun inner branch => branch.close inner) tree

/-- A node that can be evaluated nowhere takes the value from the whole tree. -/
theorem value?_closeAll {tree : Tree} (failed : tree.value? scope true = none)
    (branches : List Branch) : (closeAll branches tree).value? scope false = none := by
  induction branches generalizing tree with
  | nil => exact Tree.value?_of_skipped failed
  | cons branch outer ih => exact ih (Tree.value?_binary_of_right failed true)

end Branch

/-- The operands of one operator in a row are the leaves of a tree that leans to the left. -/
inductive Gathers (scope : Scope) (operator : BinaryOp) : List Term → Tree → Prop where
  | single {tree : Tree} {term : Term} (stands : term.Stands scope tree) :
      Gathers scope operator [term] tree
  | more {terms : List Term} {left right : Tree} {term : Term} (token : Token)
      (gathers : Gathers scope operator terms left) (stands : term.Stands scope right) :
      Gathers scope operator (terms ++ [term]) (.binary operator token left right)

namespace Gathers

variable {operator : BinaryOp} {terms : List Term} {tree : Tree}

theorem length_pos (gathers : Gathers scope operator terms tree) : 0 < terms.length := by
  cases gathers <;> simp

theorem gathered?_append {term : Term} (nonempty : terms ≠ []) :
    gathered? scope operator (terms ++ [term]) = (do
      let value ← gathered? scope operator terms
      if decides operator value then
        return value
      else
        (operator.apply value (← term.value? scope)).toOption) := by
  rcases terms with _ | ⟨first, rest⟩
  · exact absurd rfl nonempty
  · simp [gathered?, combine?_append, combine?, Option.bind_assoc]

/-- Combining the operands gives the value of the tree. -/
theorem gathered?_eq (gathers : Gathers scope operator terms tree) :
    gathered? scope operator terms = tree.value? scope false := by
  induction gathers with
  | single stands => simp [gathered?, combine?, stands.resolves]
  | more token gathers stands ih =>
      rcases Option.isSome_iff_exists.mp stands.skippable with ⟨ignored, skipped⟩
      rw [gathered?_append (List.length_pos_iff.mp gathers.length_pos), ih]
      simp [Tree.value?, Tree.stopsAt_iff, stands.resolves, skipped]

end Gathers

/-- The pending operator is the branch: its operands are those of the left child. -/
structure Waits (scope : Scope) (pending : Pending) (branch : Branch) : Prop where
  operator : pending.operator = branch.operator
  plain : branch.operator.isAssignment = false
  gathers : Gathers scope branch.operator pending.operands branch.left

theorem Waits.push {pending : Pending} {branch : Branch} (waits : Waits scope pending branch)
    {tree : Tree} {term : Term} (stands : term.Stands scope tree) :
    Gathers scope branch.operator (pending.push term).operands (branch.close tree) :=
  .more branch.token waits.gathers stands

namespace Eval

variable {settings : Settings σ}

/-- Reducing a pending operator with its last operand evaluates the node. -/
theorem ensures_reduce_push (quiet : settings.hooks = .none) {session : Session σ}
    {pending : Pending} {branch : Branch} (waits : Waits session.scope pending branch)
    {tree : Tree} {term : Term} (stands : term.Stands session.scope tree) :
    Ensures (reduce settings (pending.push term)) session
      (fun value after => session.Alike after ∧
        (branch.close tree).value? session.scope false = some value)
      (fun _ _ => (branch.close tree).value? session.scope false = none) := by
  have plain : (pending.push term).operator.isAssignment = false := by
    rw [← waits.plain, ← waits.operator]
    rfl
  have enough : 2 ≤ (pending.push term).operands.length := by
    have nonempty := waits.gathers.length_pos
    simp only [Pending.push, List.length_append, List.length_singleton]
    omega
  have reduced := ensures_reduce quiet plain enough session
  have sameOperator : (pending.push term).operator = branch.operator := waits.operator
  rw [sameOperator, (waits.push stands).gathered?_eq] at reduced
  exact reduced

/-- Reducing all pending operators evaluates the tree. -/
theorem ensures_collapse (quiet : settings.hooks = .none) {pending : List Pending}
    {branches : List Branch} (waits : pending.Forall₂ (Waits scope) branches) {tree : Tree}
    {term : Term} (stands : term.Stands scope tree) {session : Session σ}
    (sameScope : session.scope = scope) :
    Ensures (collapse settings pending term) session
      (fun value after => session.Alike after ∧
        (Branch.closeAll branches tree).value? scope false = some value)
      (fun _ _ => (Branch.closeAll branches tree).value? scope false = none) := by
  induction waits generalizing tree term session with
  | nil =>
      subst sameScope
      have resolved := ensures_resolve term session
      rw [stands.resolves] at resolved
      apply resolved.imp
      rintro value after ⟨rfl, evaluated⟩
      exact ⟨.refl after, evaluated⟩
  | @cons top branch outer branches waitsTop waitsOuter ih =>
      subst sameScope
      simp only [collapse]
      rw [ensures_bind]
      apply (ensures_reduce_push quiet waitsTop stands).mono
      · rintro value middle ⟨alike, evaluated⟩
        apply (ih (Term.stands_value evaluated top.location) alike.scope.symm).imp
        rintro whole after ⟨stillAlike, wholeEvaluated⟩
        exact ⟨alike.trans stillAlike, wholeEvaluated⟩
      · intro _ _ failed
        exact Branch.value?_closeAll failed branches

/-- An operator that binds tighter than the innermost pending one waits inside it. -/
theorem pushOperator_of_looser {operator : BinaryOp} {outer : List Pending}
    (looser : ∀ top ∈ outer.head?, operator.priority < top.operator.priority)
    {location : Location} {term : Term} :
    pushOperator settings operator location outer term =
      pure ({ operator, operands := [term], location } :: outer) := by
  rcases outer with _ | ⟨top, others⟩
  · rfl
  · have topLooser := looser top rfl
    have differs : top.operator ≠ operator := by
      rintro rfl
      exact absurd topLooser (Nat.lt_irrefl _)
    have later : top.operator.bindsBefore operator = false := by
      simp [BinaryOp.bindsBefore, Nat.le_of_lt topLooser, Nat.ne_of_gt topLooser]
    simp [pushOperator, differs, later]

/--
Where an operator follows that binds more loosely than all branches and tighter than what is
outside, the branches become its left child.
-/
theorem ensures_pushOperator (quiet : settings.hooks = .none) {operator : BinaryOp}
    (plain : operator.isAssignment = false) (token : Token) (location : Location)
    {pending : List Pending} {branches : List Branch}
    (waits : pending.Forall₂ (Waits scope) branches)
    (sorted : branches.Pairwise fun inner outer =>
      inner.operator.priority < outer.operator.priority)
    (tighter : ∀ branch ∈ branches, branch.operator.priority ≤ operator.priority)
    {outer : List Pending}
    (looser : ∀ top ∈ outer.head?, operator.priority < top.operator.priority) {tree : Tree}
    {term : Term} (stands : term.Stands scope tree) {session : Session σ}
    (sameScope : session.scope = scope) :
    Ensures (pushOperator settings operator location (pending ++ outer) term) session
      (fun pushed after => session.Alike after ∧ ∃ top, pushed = top :: outer ∧
        Waits scope top { operator, token, left := Branch.closeAll branches tree })
      (fun _ _ => (Branch.closeAll branches tree).value? scope false = none) := by
  induction waits generalizing tree term session with
  | nil =>
      rw [List.nil_append, pushOperator_of_looser looser]
      exact ⟨.refl session, _, rfl, rfl, plain, .single stands⟩
  | @cons top branch rest branches waitsTop waitsRest ih =>
      subst sameScope
      rcases List.forall_mem_cons.mp tighter with ⟨branchTighter, restTighter⟩
      rcases List.pairwise_cons.mp sorted with ⟨innermost, restSorted⟩
      rw [List.cons_append]
      simp only [pushOperator]
      by_cases same : top.operator = operator
      · have noOther : branches = [] := by
          rcases branches with _ | ⟨next, _⟩
          · rfl
          · have order := innermost next (by simp)
            have nextTighter := restTighter next (by simp)
            rw [← waitsTop.operator, same] at order
            omega
        subst noOther
        cases waitsRest
        rw [if_pos same]
        refine ⟨.refl session, _, rfl, same, plain, ?_⟩
        have gathers := waitsTop.push stands
        rw [← waitsTop.operator, same] at gathers
        exact gathers
      · have before : top.operator.bindsBefore operator = true := by
          rw [← waitsTop.operator] at branchTighter
          simp only [BinaryOp.bindsBefore, plain, Bool.or_eq_true, Bool.and_eq_true,
            decide_eq_true_eq, beq_iff_eq, Bool.not_false, and_true]
          omega
        rw [if_neg same, if_pos before, ensures_bind]
        apply (ensures_reduce_push quiet waitsTop stands).mono
        · rintro value middle ⟨alike, evaluated⟩
          apply (ih restSorted restTighter (Term.stands_value evaluated top.location)
            alike.scope.symm).imp
          rintro pushed after ⟨stillAlike, pushedTop⟩
          exact ⟨alike.trans stillAlike, pushedTop⟩
        · intro _ _ failed
          exact Branch.value?_closeAll failed branches

end Eval

end BlockCalc
