import BlockCalc.Proofs.Reading
import Mathlib.Data.List.Induction

/-!
# Runs of equal operators

Where an operator comes up again behind operands that belong to tighter operators, it goes on with
the run that its first occurrence began. Which operators began the runs that still wait can be told
from the operator tokens of a bracket level alone, without any values: `runs` says how, and
`beginsRun_of_mem_runs` what it comes to. `Outline` tells which tokens of a level are operators.
-/

namespace BlockCalc

/-- A token that stands for a binary operator. -/
structure Sign where
  token : Token
  operator : BinaryOp
  stands : token.binary? = some operator

/-- The token with the binary operator that it stands for, if it stands for one. -/
def Token.sign? (token : Token) : Option Sign :=
  match stands : token.binary? with
  | some operator => some { token, operator, stands }
  | none => none

theorem Token.sign?_eq_some {token : Token} {operator : BinaryOp}
    (stands : token.binary? = some operator) :
    token.sign? = some { token, operator, stands } := by
  simp only [sign?]
  split
  · rename_i other otherStands
    cases stands.symm.trans otherStands
    rfl
  · rename_i none
    cases stands.symm.trans none

/-- The runs that wait after one more operator, innermost first, each with its first sign. -/
def joinRun (sign : Sign) : List Sign → List Sign
  | [] => [sign]
  | top :: outer =>
      if top.operator = sign.operator then top :: outer
      else if top.operator.bindsBefore sign.operator then joinRun sign outer
      else sign :: top :: outer

/-- The runs that wait behind the operators of an expression, each with its first sign. -/
def runs (signs : List Sign) : List Sign :=
  signs.foldl (fun waiting sign => joinRun sign waiting) []

/--
A sign among those of an expression begins a run that still waits. Nothing behind it makes the run
give way, and the same operator before it is parted from it by another one that binds no tighter.
-/
def BeginsRun (signs : List Sign) (sign : Sign) : Prop :=
  ∃ before behind, signs = before ++ sign :: behind ∧
    (∀ later ∈ behind, later.operator = sign.operator ∨
      sign.operator.bindsBefore later.operator = false) ∧
    ∀ front earlier between, before = front ++ earlier :: between →
      earlier.operator = sign.operator →
        ∃ parting ∈ between, parting.operator ≠ sign.operator ∧
          sign.operator.priority ≤ parting.operator.priority

theorem runs_append_singleton (signs : List Sign) (sign : Sign) :
    runs (signs ++ [sign]) = joinRun sign (runs signs) := by
  rw [runs, List.foldl_append]
  rfl

theorem joinRun_ne_nil (sign : Sign) (waiting : List Sign) : joinRun sign waiting ≠ [] := by
  induction waiting with
  | nil => simp [joinRun]
  | cons top outer ih =>
      simp only [joinRun]
      split
      · simp
      · split
        · exact ih
        · simp

/-- Something waits behind every operator. -/
theorem runs_eq_nil_iff {signs : List Sign} : runs signs = [] ↔ signs = [] := by
  cases signs using List.reverseRecOn with
  | nil => simp [runs]
  | append_singleton signs sign => simp [runs_append_singleton, joinRun_ne_nil]

/-- Of two operators that wait, the outer one does not bind before the inner one. -/
def Nested (waiting : List Sign) : Prop :=
  waiting.Pairwise fun inner outer => outer.operator.bindsBefore inner.operator = false

theorem BinaryOp.bindsBefore_eq_false_iff {pending upcoming : BinaryOp} :
    pending.bindsBefore upcoming = false ↔ upcoming.priority ≤ pending.priority ∧
      (upcoming.priority = pending.priority → upcoming.isAssignment = true) := by
  simp only [bindsBefore, Bool.or_eq_false_iff, decide_eq_false_iff_not, Nat.not_lt,
    Bool.and_eq_false_iff, beq_eq_false_iff_ne, Bool.not_eq_false']
  constructor
  · rintro ⟨le, other⟩
    exact ⟨le, fun same => other.resolve_left (Ne.symm · same)⟩
  · rintro ⟨le, assigns⟩
    refine ⟨le, ?_⟩
    by_cases same : upcoming.priority = pending.priority
    · exact Or.inr (assigns same)
    · exact Or.inl (Ne.symm same)

theorem BinaryOp.bindsBefore_trans {outer top upcoming : BinaryOp}
    (around : outer.bindsBefore top = false) (stays : top.bindsBefore upcoming = false) :
    outer.bindsBefore upcoming = false := by
  rw [bindsBefore_eq_false_iff] at around stays ⊢
  refine ⟨Nat.le_trans stays.1 around.1, fun same => stays.2 ?_⟩
  exact Nat.le_antisymm stays.1 (same ▸ around.1)

theorem Nested.joinRun {waiting : List Sign} (nested : Nested waiting) (sign : Sign) :
    Nested (joinRun sign waiting) := by
  induction waiting with
  | nil => exact List.pairwise_singleton _ _
  | cons top outer ih =>
      have around (waits : Sign) (mem : waits ∈ outer) :
          waits.operator.bindsBefore top.operator = false := List.rel_of_pairwise_cons nested mem
      simp only [BlockCalc.joinRun]
      split
      · exact nested
      · split
        · exact ih nested.of_cons
        · rename_i _ stays
          have stays : top.operator.bindsBefore sign.operator = false := by simpa using stays
          refine List.Pairwise.cons ?_ nested
          rw [List.forall_mem_cons]
          exact ⟨stays, fun waits mem => BinaryOp.bindsBefore_trans (around waits mem) stays⟩

theorem nested_runs (signs : List Sign) : Nested (runs signs) := by
  induction signs using List.reverseRecOn with
  | nil => exact List.Pairwise.nil
  | append_singleton signs sign ih =>
      rw [runs_append_singleton]
      exact ih.joinRun sign

/-- Among the waiting runs, one of the operator is only behind runs of tighter operators. -/
def GoesOn (operator : BinaryOp) (waiting : List Sign) : Prop :=
  ∃ inner first outer, waiting = inner ++ first :: outer ∧ first.operator = operator ∧
    ∀ tighter ∈ inner, tighter.operator.priority < operator.priority

theorem GoesOn.of_cons {operator : BinaryOp} {top : Sign} {outer : List Sign}
    (goesOn : GoesOn operator (top :: outer)) (other : top.operator ≠ operator) :
    top.operator.priority < operator.priority ∧ GoesOn operator outer := by
  rcases goesOn with ⟨_ | ⟨_, rest⟩, first, around, waiting, same, inside⟩
  · cases waiting
    exact absurd same other
  · cases waiting
    rcases List.forall_mem_cons.mp inside with ⟨tighter, restTighter⟩
    exact ⟨tighter, rest, first, around, rfl, same, restTighter⟩

theorem goesOn_joinRun_self (sign : Sign) (waiting : List Sign) :
    GoesOn sign.operator (joinRun sign waiting) := by
  induction waiting with
  | nil => exact ⟨[], sign, [], rfl, rfl, by simp⟩
  | cons top outer ih =>
      simp only [joinRun]
      split
      · rename_i same
        exact ⟨[], top, outer, rfl, same, by simp⟩
      · split
        · exact ih
        · exact ⟨[], sign, top :: outer, rfl, rfl, by simp⟩

theorem GoesOn.joinRun {operator : BinaryOp} {waiting : List Sign}
    (goesOn : GoesOn operator waiting) {sign : Sign}
    (tighter : sign.operator.priority < operator.priority) :
    GoesOn operator (joinRun sign waiting) := by
  rcases goesOn with ⟨inner, first, outer, rfl, rfl, inside⟩
  induction inner with
  | nil =>
      have other : first.operator ≠ sign.operator := fun same => by simp [same] at tighter
      have stays : first.operator.bindsBefore sign.operator = false :=
        BinaryOp.bindsBefore_eq_false_iff.mpr
          ⟨Nat.le_of_lt tighter, fun same => absurd same (Nat.ne_of_lt tighter)⟩
      simp only [List.nil_append, BlockCalc.joinRun, other, stays, Bool.false_eq_true, if_false]
      exact ⟨[sign], first, outer, rfl, rfl, by simpa using tighter⟩
  | cons top rest ih =>
      rcases List.forall_mem_cons.mp inside with ⟨topTighter, restTighter⟩
      simp only [List.cons_append, BlockCalc.joinRun]
      split
      · exact ⟨top :: rest, first, outer, rfl, rfl, inside⟩
      · split
        · exact ih restTighter
        · exact ⟨sign :: top :: rest, first, outer, rfl, rfl,
            List.forall_mem_cons.mpr ⟨tighter, inside⟩⟩

/-- The run of an operator goes on as long as what follows is the same operator or tighter. -/
theorem goesOn_runs (front : List Sign) (first : Sign) {behind : List Sign}
    (goesOn : ∀ later ∈ behind, later.operator = first.operator ∨
      later.operator.priority < first.operator.priority) :
    GoesOn first.operator (runs (front ++ first :: behind)) := by
  induction behind using List.reverseRecOn with
  | nil =>
      rw [runs_append_singleton]
      exact goesOn_joinRun_self first _
  | append_singleton behind last ih =>
      rw [← List.cons_append, ← List.append_assoc, runs_append_singleton]
      have before : ∀ later ∈ behind, later.operator = first.operator ∨
          later.operator.priority < first.operator.priority :=
        fun later mem => goesOn later (List.mem_append_left _ mem)
      rcases goesOn last (by simp) with same | tighter
      · rw [← same]
        exact goesOn_joinRun_self last _
      · exact (ih before).joinRun tighter

/-- A run that waits has waited before and does not give way, or it is new. -/
theorem mem_joinRun {waiting : List Sign} (nested : Nested waiting) {sign run : Sign}
    (mem : run ∈ joinRun sign waiting) :
    run ∈ waiting ∧
        (sign.operator = run.operator ∨ run.operator.bindsBefore sign.operator = false) ∨
      run = sign ∧ ¬GoesOn sign.operator waiting := by
  induction waiting with
  | nil =>
      have noRun : ¬GoesOn sign.operator [] := by
        rintro ⟨inner, first, outer, impossible, _⟩
        simp at impossible
      exact Or.inr ⟨List.mem_singleton.mp mem, noRun⟩
  | cons top outer ih =>
      have around (waits : Sign) (mem : waits ∈ outer) :
          waits.operator.bindsBefore top.operator = false := List.rel_of_pairwise_cons nested mem
      simp only [joinRun] at mem
      split at mem
      · rename_i same
        refine Or.inl ⟨mem, ?_⟩
        rcases List.mem_cons.mp mem with rfl | inOuter
        · exact Or.inl same.symm
        · exact Or.inr (same ▸ around run inOuter)
      · rename_i other
        split at mem
        · rename_i gives
          rcases ih nested.of_cons mem with ⟨waits, stays⟩ | ⟨rfl, noRun⟩
          · exact Or.inl ⟨List.mem_cons_of_mem top waits, stays⟩
          · exact Or.inr ⟨rfl, fun goesOn => noRun (goesOn.of_cons other).2⟩
        · rename_i stays
          have stays : top.operator.bindsBefore sign.operator = false := by simpa using stays
          rcases List.mem_cons.mp mem with rfl | waits
          · refine Or.inr ⟨rfl, fun goesOn => ?_⟩
            have le := (BinaryOp.bindsBefore_eq_false_iff.mp stays).1
            exact absurd (goesOn.of_cons other).1 (Nat.not_lt.mpr le)
          · refine Or.inl ⟨waits, Or.inr ?_⟩
            rcases List.mem_cons.mp waits with rfl | inOuter
            · exact stays
            · exact BinaryOp.bindsBefore_trans (around run inOuter) stays

/-- What waits behind some operators began its run, which nothing has made give way. -/
theorem beginsRun_of_mem_runs {signs : List Sign} {sign : Sign} (waits : sign ∈ runs signs) :
    BeginsRun signs sign := by
  induction signs using List.reverseRecOn with
  | nil => cases waits
  | append_singleton signs last ih =>
      rw [runs_append_singleton] at waits
      rcases mem_joinRun (nested_runs signs) waits with ⟨waited, stays⟩ | ⟨rfl, noRun⟩
      · rcases ih waited with ⟨before, behind, rfl, staysBehind, parted⟩
        refine ⟨before, behind ++ [last], by simp, ?_, parted⟩
        rw [List.forall_mem_append]
        exact ⟨staysBehind, by simpa using stays⟩
      · refine ⟨signs, [], rfl, by simp, ?_⟩
        rintro front earlier between rfl same
        by_contra unparted
        refine noRun (same ▸ goesOn_runs front earlier fun later mem => ?_)
        by_cases equal : later.operator = earlier.operator
        · exact Or.inl equal
        · refine Or.inr (Nat.lt_of_not_le fun looser => unparted ⟨later, mem, ?_⟩)
          rw [← same]
          exact ⟨equal, looser⟩

/-- What has been read of the current statement at a bracket level, in tokens alone. -/
inductive Outline where
  | statement
  | naming
  | named
  /-- Something that an operand has to follow; `unary` holds the last unary operator first. -/
  | operand (signs : List Sign) (unary : List Token)
  | operator (signs : List Sign)
  | block

namespace Outline

/-- Behind a token where an operand is due. -/
def operandAt (signs : List Sign) (unary : List Token) (token : Token) : Outline :=
  if token.unary?.isSome then .operand signs (token :: unary) else .operator signs

/-- Behind a token where an operator is due. -/
def operatorAt (signs : List Sign) (token : Token) : Outline :=
  match token.sign? with
  | some sign => .operand (signs ++ [sign]) []
  | none => .operator signs

/-- Behind the first token of a statement. -/
def firstAt (token : Token) : Outline :=
  if token.isLet then .naming else operandAt [] [] token

/-- The outline after a token that is no bracket. -/
def leaf (token : Token) (outline : Outline) : Outline :=
  if token.isSeparator then .statement
  else match outline with
    | .statement => firstAt token
    | .naming => .named
    | .named => operatorAt [] token
    | .operand signs unary => operandAt signs unary token
    | .operator signs => operatorAt signs token
    | .block => if token.binary?.isSome then operatorAt [] token else firstAt token

/-- Behind a bracket that is an operand, or a block that may be a whole statement. -/
def nestAt (bracket : Bracket) (signs : List Sign) (unary : List Token) : Outline :=
  match bracket, signs, unary with
  | .curly, [], [] => .block
  | _, signs, _ => .operator signs

/-- The outline after a pair of brackets. -/
def nest (bracket : Bracket) : Outline → Outline
  | .operand signs unary => nestAt bracket signs unary
  | .operator signs => .operator signs
  | _ => nestAt bracket [] []

/-- Behind a part of a bracket level. -/
def after (outline : Outline) : Forest → Outline
  | .nil => outline
  | .leaf token rest => (outline.leaf token).after rest
  | .nest bracket _ _ _ rest => (outline.nest bracket).after rest

/-- Once something has been read, it is not as if nothing had been read of an expression. -/
theorem leaf_ne_nothing (token : Token) (outline : Outline) :
    outline.leaf token ≠ .operand [] [] := by
  have atOperand (signs : List Sign) (unary : List Token) :
      operandAt signs unary token ≠ .operand [] [] := by
    simp only [operandAt]
    split <;> simp
  have atFirst : firstAt token ≠ .operand [] [] := by
    simp only [firstAt]
    split
    · simp
    · exact atOperand [] []
  have atOperator (signs : List Sign) : operatorAt signs token ≠ .operand [] [] := by
    simp only [operatorAt]
    split <;> simp
  simp only [leaf]
  split
  · simp
  · cases outline with
    | statement => exact atFirst
    | naming => simp
    | named => exact atOperator []
    | operand signs unary => exact atOperand signs unary
    | operator signs => exact atOperator signs
    | block =>
        dsimp only
        split
        · exact atOperator []
        · exact atFirst

theorem nest_ne_nothing (bracket : Bracket) (outline : Outline) :
    outline.nest bracket ≠ .operand [] [] := by
  have atNest (signs : List Sign) (unary : List Token) :
      nestAt bracket signs unary ≠ .operand [] [] := by
    simp only [nestAt]
    split <;> simp
  cases outline with
  | operand signs unary => exact atNest signs unary
  | operator signs => simp [nest]
  | _ => exact atNest [] []

theorem after_ne_nothing {outline : Outline} (begun : outline ≠ .operand [] []) (part : Forest) :
    outline.after part ≠ .operand [] [] := by
  induction part generalizing outline with
  | nil => exact begun
  | leaf token rest ih => exact ih (leaf_ne_nothing token outline)
  | nest bracket opener inner closer rest _ ih => exact ih (nest_ne_nothing bracket outline)

/-- The operators of the current expression. -/
def signs : Outline → List Sign
  | .operand signs _ => signs
  | .operator signs => signs
  | _ => []

end Outline

/-- The tokens of a bracket level that are in no bracket of it. -/
def Forest.leaves : Forest → List Token
  | nil => []
  | leaf token rest => token :: rest.leaves
  | nest _ _ _ _ rest => rest.leaves

namespace Outline

theorem signs_leaf (token : Token) (outline : Outline) :
    ((outline.leaf token).signs.map Sign.token).Sublist
      (outline.signs.map Sign.token ++ [token]) := by
  have atOperand (signs : List Sign) (unary : List Token) :
      (operandAt signs unary token).signs = signs := by
    simp only [operandAt]
    split <;> rfl
  have atFirst : (firstAt token).signs = [] := by
    simp only [firstAt]
    split
    · rfl
    · exact atOperand [] []
  have atOperator (signs : List Sign) :
      ((operatorAt signs token).signs.map Sign.token).Sublist
        (signs.map Sign.token ++ [token]) := by
    simp only [operatorAt, Token.sign?]
    split
    · rename_i sign found
      split at found
      · cases found
        simp [Outline.signs]
      · cases found
    · exact List.sublist_append_left _ _
  simp only [leaf]
  split
  · exact List.nil_sublist _
  · cases outline with
    | statement => simp [atFirst]
    | naming => exact List.nil_sublist _
    | named => exact atOperator []
    | operand signs unary =>
        rw [atOperand]
        exact List.sublist_append_left _ _
    | operator signs => exact atOperator signs
    | block =>
        dsimp only
        split
        · exact atOperator []
        · simp [atFirst]

theorem signs_nest (bracket : Bracket) (outline : Outline) :
    (outline.nest bracket).signs = outline.signs := by
  have atNest (signs : List Sign) (unary : List Token) :
      (nestAt bracket signs unary).signs = signs := by
    simp only [nestAt]
    split <;> rfl
  cases outline with
  | operand signs unary => exact atNest signs unary
  | operator signs => rfl
  | _ => exact atNest [] []

/-- The operators of an expression are among the tokens of its bracket level. -/
theorem signs_after (outline : Outline) (part : Forest) :
    ((outline.after part).signs.map Sign.token).Sublist
      (outline.signs.map Sign.token ++ part.leaves) := by
  induction part generalizing outline with
  | nil => simp [after, Forest.leaves]
  | leaf token rest ih =>
      have first := (signs_leaf token outline).append_right rest.leaves
      rw [List.append_assoc, List.singleton_append] at first
      exact (ih _).trans first
  | nest bracket opener inner closer rest _ ih =>
      have behind := ih (outline.nest bracket)
      rwa [signs_nest] at behind

end Outline

end BlockCalc
