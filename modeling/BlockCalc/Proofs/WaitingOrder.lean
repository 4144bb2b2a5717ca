import BlockCalc.Proofs.Deeds
import BlockCalc.Proofs.Runs
import BlockCalc.Proofs.Settling
import Mathlib.Data.List.Chain
import Mathlib.Data.List.Perm.Subperm

/-!
# The order in which operators wait

An operator goes on the stack right on top of one that it does not make give way and that is another
operator. This is kept by every token and every bracket, and by every reduction on the way. Seen
from the top, it makes the stack fall into two parts: operators that are no assignments, each of
which binds tighter than the one below, and below them assignments. Every operator on the stack has
an operand, so that with the one that comes up it can be reduced.
-/

namespace BlockCalc

variable {σ : Type}

/-- The operators that wait for an operand or behind one, innermost first. -/
def Phase.stack : Phase → List Pending
  | .operand pending _ | .operator pending _ => pending
  | _ => []

theorem Phase.Awaits.stack_eq {enclosure : Enclosure} {upcoming : Option BinaryOp} {phase : Phase}
    {pending : List Pending} {unary : List Token}
    (awaits : phase.Awaits enclosure upcoming pending unary) : phase.stack = pending := by
  cases awaits with
  | begins begins => cases begins <;> rfl
  | operand pending unary => rfl

theorem Phase.Offers.stack_eq {settings : Settings σ} {session : Session σ}
    {upcoming : Option BinaryOp} {phase : Phase} {pending : List Pending} {term : Term}
    (offers : phase.Offers settings session upcoming pending term) : phase.stack = pending := by
  cases offers <;> rfl

/-- An operator that came up did not make the one that waited join it or give way. -/
def Pending.WaitsOn (inner outer : Pending) : Prop :=
  inner.operator ≠ outer.operator ∧ outer.operator.bindsBefore inner.operator = false

/-- Each operator waits on the one below it and has an operand. -/
structure Piled (waiting : List Pending) : Prop where
  waitsOn : waiting.IsChain Pending.WaitsOn
  supplied : Eval.Supplied waiting

/--
From the top, operators that are no assignments wait by ascending priority, and below them
assignments, of which no two equal ones are next to each other. Each of them has an operand.
-/
structure InOrder (waiting : List Pending) : Prop where
  parts : ∃ plain assignments, waiting = plain ++ assignments ∧
    (∀ pending ∈ plain, pending.operator.isAssignment = false) ∧
    (plain.Pairwise fun inner outer => inner.operator.priority < outer.operator.priority) ∧
    plain.length ≤ 6 ∧
    (∀ pending ∈ assignments, pending.operator.isAssignment = true) ∧
    assignments.IsChain fun inner outer => inner.operator ≠ outer.operator
  supplied : ∀ pending ∈ waiting, pending.operands ≠ []

namespace BinaryOp

theorem priority_eq_of_isAssignment {operator : BinaryOp} (assigns : operator.isAssignment = true) :
    operator.priority = 6 := by
  simpa [isAssignment] using assigns

theorem priority_lt_of_plain {operator : BinaryOp} (plain : operator.isAssignment = false) :
    operator.priority < 6 := by
  revert plain
  cases operator <;> decide

end BinaryOp

namespace Pending

theorem givesWay_none (pending : Pending) : pending.GivesWay none := by
  simp [GivesWay]

theorem givesWay_some_iff {pending : Pending} {upcoming : BinaryOp} :
    pending.GivesWay (some upcoming) ↔
      pending.operator ≠ upcoming ∧ pending.operator.bindsBefore upcoming = true := by
  simp [GivesWay]

end Pending

namespace Pending.WaitsOn

variable {inner outer : Pending}

/-- On an operator that is no assignment, only a tighter one waits. -/
theorem of_plain (waits : inner.WaitsOn outer) (plain : outer.operator.isAssignment = false) :
    inner.operator.isAssignment = false ∧ inner.operator.priority < outer.operator.priority := by
  rcases BinaryOp.bindsBefore_eq_false_iff.mp waits.2 with ⟨atMost, assigns⟩
  have outerPriority := BinaryOp.priority_lt_of_plain plain
  have innerPlain : inner.operator.isAssignment = false := by
    rw [← Bool.not_eq_true]
    intro innerAssigns
    have innerPriority := BinaryOp.priority_eq_of_isAssignment innerAssigns
    omega
  refine ⟨innerPlain, Nat.lt_of_le_of_ne atMost fun same => ?_⟩
  cases innerPlain.symm.trans (assigns same)

end Pending.WaitsOn

/-- The operators that wait once one has come up that nothing gives way to any more. -/
def Stage.take (stage : Stage σ) (operator : BinaryOp) (location : Location) : List Pending :=
  match stage.pending with
  | [] => [{ operator, operands := [stage.term], location }]
  | top :: outer =>
      if top.operator = operator then top.push stage.term :: outer
      else { operator, operands := [stage.term], location } :: top :: outer

namespace Piled

variable {top : Pending} {outer waiting : List Pending}

theorem nil : Piled [] :=
  ⟨.nil, Eval.supplied_nil⟩

theorem of_cons (piled : Piled (top :: outer)) : Piled outer :=
  ⟨piled.waitsOn.tail, (Eval.supplied_cons.mp piled.supplied).2⟩

/-- Another operand does not change how an operator waits. -/
theorem push (piled : Piled (top :: outer)) (term : Term) :
    Piled (top.push term :: outer) where
  waitsOn := by
    rcases List.isChain_cons.mp piled.waitsOn with ⟨waits, further⟩
    exact List.isChain_cons.mpr ⟨waits, further⟩
  supplied := by
    simpa [Pending.push] using (Eval.supplied_cons.mp piled.supplied).2

/-- The operator that came up waits on the one that does not give way to it. -/
theorem take {stage : Stage σ} (piled : Piled stage.pending) {operator : BinaryOp}
    (stays : ∀ top ∈ stage.pending.head?, ¬top.GivesWay (some operator)) (location : Location) :
    Piled (stage.take operator location) := by
  rcases stage with ⟨_ | ⟨top, outer⟩, term, session⟩
  · exact ⟨.singleton _, by simp [Stage.take]⟩
  · simp only [Stage.take]
    split
    · exact piled.push term
    · rename_i other
      have binds : top.operator.bindsBefore operator = false := by
        rw [← Bool.not_eq_true]
        intro before
        exact stays top rfl (Pending.givesWay_some_iff.mpr ⟨other, before⟩)
      have waits : Pending.WaitsOn { operator, operands := [term], location } top :=
        ⟨Ne.symm other, binds⟩
      exact ⟨.cons_cons waits piled.waitsOn, by simpa using piled.supplied⟩

/-- Of operators that are no assignments, at most one can wait for each of the other priorities. -/
theorem length_le_six (plain : ∀ pending ∈ waiting, pending.operator.isAssignment = false)
    (ascending : waiting.Pairwise fun inner outer =>
      inner.operator.priority < outer.operator.priority) : waiting.length ≤ 6 := by
  have distinct : (waiting.map (·.operator.priority)).Nodup :=
    (List.pairwise_map.mpr ascending).imp Nat.ne_of_lt
  have small : waiting.map (·.operator.priority) ⊆ List.range 6 := by
    intro priority mem
    rcases List.mem_map.mp mem with ⟨pending, waits, rfl⟩
    exact List.mem_range.mpr (BinaryOp.priority_lt_of_plain (plain pending waits))
  simpa using (distinct.subperm small).length_le

/-- What lies on an operator that is no assignment is none either, so the lower part is the rest. -/
theorem parts (piled : Piled waiting) :
    ∃ plain assignments, waiting = plain ++ assignments ∧
      (∀ pending ∈ plain, pending.operator.isAssignment = false) ∧
      (plain.Pairwise fun inner outer => inner.operator.priority < outer.operator.priority) ∧
      (∀ pending ∈ assignments, pending.operator.isAssignment = true) ∧
      assignments.IsChain fun inner outer => inner.operator ≠ outer.operator := by
  induction waiting with
  | nil => exact ⟨[], [], rfl, by simp, .nil, by simp, .nil⟩
  | cons top outer ih =>
      rcases ih piled.of_cons with ⟨plain, assignments, rfl, isPlain, ascending, assigns, differ⟩
      have waits := (List.isChain_cons.mp piled.waitsOn).1
      rcases plain with _ | ⟨below, further⟩
      · cases topAssigns : top.operator.isAssignment with
        | false =>
            exact ⟨[top], assignments, rfl, by simpa using topAssigns, List.pairwise_singleton _ _,
              assigns, differ⟩
        | true =>
            refine ⟨[], top :: assignments, rfl, by simp, .nil, ?_, ?_⟩
            · exact List.forall_mem_cons.mpr ⟨topAssigns, assigns⟩
            · exact List.isChain_cons.mpr ⟨fun below isBelow => (waits below isBelow).1, differ⟩
      · have tighter := (waits below rfl).of_plain (isPlain below List.mem_cons_self)
        refine ⟨top :: below :: further, assignments, rfl, ?_, ?_, assigns, differ⟩
        · exact List.forall_mem_cons.mpr ⟨tighter.1, isPlain⟩
        · refine List.pairwise_cons.mpr ⟨?_, ascending⟩
          rw [List.forall_mem_cons]
          refine ⟨tighter.2, fun pending waitsBelow => ?_⟩
          exact Nat.lt_trans tighter.2 (List.rel_of_pairwise_cons ascending waitsBelow)

theorem inOrder (piled : Piled waiting) : InOrder waiting := by
  rcases piled.parts with ⟨plain, assignments, same, isPlain, ascending, assigns, differ⟩
  exact ⟨⟨plain, assignments, same, isPlain, ascending, length_le_six isPlain ascending, assigns,
    differ⟩, piled.supplied⟩

end Piled

namespace Eval

variable {settings : Settings σ} {session : Session σ}

theorem Settles.piled {upcoming : Option BinaryOp} {first last : Stage σ}
    (settles : Settles settings upcoming first last) (piled : Piled first.pending) :
    Piled last.pending := by
  induction settles with
  | refl stage => exact piled
  | reduced _ _ _ ih => exact ih piled.of_cons

/-- An operator that goes on the stack does so behind the last reduction that it brings about. -/
theorem settles_of_pushOperator {operator : BinaryOp} {location : Location}
    {pending pushed : List Pending} {term : Term} {after : Session σ}
    (ran : pushOperator settings operator location pending term session = .ok pushed after) :
    ∃ last, Settles settings (some operator) ⟨pending, term, session⟩ last ∧
      (∀ top ∈ last.pending.head?, ¬top.GivesWay (some operator)) ∧ last.session = after ∧
      pushed = last.take operator location := by
  induction pending generalizing term session with
  | nil =>
      cases ran
      exact ⟨_, .refl _, by simp, rfl, rfl⟩
  | cons top outer ih =>
      by_cases gives : top.GivesWay (some operator)
      · rcases Pending.givesWay_some_iff.mp gives with ⟨other, before⟩
        simp only [pushOperator, other, before, if_true, if_false] at ran
        rcases exists_of_bind_ok ran with ⟨value, reduced, first, ran⟩
        rcases ih ran with ⟨last, further, stays⟩
        exact ⟨last, .reduced gives first further, stays⟩
      · refine ⟨⟨top :: outer, term, session⟩, .refl _, by simpa using gives, ?_⟩
        simp only [pushOperator] at ran
        split at ran
        · rename_i same
          cases ran
          exact ⟨rfl, (if_pos same).symm⟩
        · rename_i other
          split at ran
          · rename_i before
            exact absurd (Pending.givesWay_some_iff.mpr ⟨other, before⟩) gives
          · cases ran
            exact ⟨rfl, (if_neg other).symm⟩

/-- An operator that comes up goes on a stack in order, whatever it makes give way. -/
theorem piled_pushOperator (operator : BinaryOp) (location : Location) {pending : List Pending}
    (piled : Piled pending) (term : Term) :
    Ensures (pushOperator settings operator location pending term) session
      (fun pushed _ => Piled pushed) (fun _ _ => True) := by
  simp only [Ensures]
  split
  · rename_i pushed after ran
    rcases settles_of_pushOperator ran with ⟨last, settles, stays, _, rfl⟩
    exact (settles.piled piled).take stays location
  · trivial

theorem Leads.piled {enclosure : Enclosure} {token : Token} {phase next : Phase}
    (leads : Leads settings session enclosure token phase next) (piled : Piled phase.stack) :
    Piled next.stack := by
  cases leads with
  | ends separator yields inStatements => exact .nil
  | keyword isLet begins => exact .nil
  | string awaits string => exact awaits.stack_eq ▸ piled
  | word awaits word isTerm => exact awaits.stack_eq ▸ piled
  | unary awaits punctuation isUnary => exact awaits.stack_eq ▸ piled

theorem piled_readToken (enclosure : Enclosure) (token : Token) {phase : Phase}
    (piled : Piled phase.stack) :
    Ensures (readToken settings enclosure token phase) session
      (fun next _ => Piled next.stack) (fun _ _ => True) := by
  apply Ensures.readToken
  intro deed does
  cases does with
  | turns leads => exact leads.piled piled
  | refuses refuses => trivial
  | pushes offers stands =>
      exact (piled_pushOperator _ _ (offers.stack_eq ▸ piled) _).bind fun _ _ pushed => pushed
  | declares keyword identifier => exact (ensures_trivial _ session).bind fun _ _ _ => .nil
  | concludes separator =>
      apply (ensures_trivial _ session).bind
      intro value concluded _
      exact (ensures_trivial _ concluded).bind fun _ _ _ => .nil

theorem piled_beforeBracket (enclosure : Enclosure) (opener : Token) {phase : Phase}
    (piled : Piled phase.stack) :
    Ensures (beforeBracket settings enclosure opener phase) session
      (fun before _ => Piled before.1) (fun _ _ => True) := by
  apply Ensures.beforeBracket
  · intro pending unary awaits
    exact awaits.stack_eq ▸ piled
  · intro failure bars
    trivial

theorem piled_afterBracket (bracket : Bracket) {pending : List Pending}
    (piled : Piled pending) (unary : List Token) (value : Value) (location : Location) :
    Ensures (afterBracket settings bracket pending unary value location) session
      (fun next _ => Piled next.stack) (fun _ _ => True) := by
  simp only [ensures_afterBracket, Phase.closing]
  split
  · exact .nil
  · exact piled

/-- Every token and every bracket keeps the operators that wait in order. -/
theorem piled_read (enclosure : Enclosure) (forest : Forest) {phase : Phase}
    (piled : Piled phase.stack) :
    Ensures (read settings enclosure forest phase) session
      (fun next _ => Piled next.stack) (fun _ _ => True) := by
  induction forest generalizing phase session with
  | nil => exact piled
  | leaf token rest ih =>
      rw [read_leaf]
      apply (ensures_trivial _ session).bind
      intro _ advanced _
      apply (piled_readToken enclosure token piled).bind
      intro next after nextPiled
      exact ih nextPiled
  | nest bracket opener inner closer rest _ ih =>
      rw [read_nest]
      apply (piled_beforeBracket enclosure opener piled).bind
      rintro ⟨pending, unary⟩ ready pendingPiled
      apply (ensures_trivial _ ready).bind
      intro location located _
      apply (ensures_trivial _ located).bind
      intro _ advanced _
      apply (ensures_trivial _ advanced).bind
      intro group opened _
      apply (ensures_trivial _ opened).bind
      intro value closed _
      apply (piled_afterBracket bracket pendingPiled unary value location).bind
      intro next after nextPiled
      exact ih nextPiled

theorem piled_openBracket (enclosure : Enclosure) (bracket : Bracket) (opener : Token)
    (phase : Phase) :
    Ensures (openBracket settings enclosure bracket opener phase) session
      (fun opened _ => Piled opened.2.stack) (fun _ _ => True) := by
  apply (ensures_trivial _ session).bind
  intro _ ready _
  apply (ensures_trivial _ ready).bind
  intro location located _
  apply (ensures_trivial _ located).bind
  intro _ advanced _
  apply (ensures_trivial _ advanced).bind
  intro group opened _
  cases bracket with
  | round => exact Piled.nil
  | curly =>
      apply (ensures_trivial _ opened).bind
      intro _ entered _
      exact Piled.nil

theorem Reaches.piled {start last : Moment σ} (reaches : Reaches settings start last)
    (piled : Piled start.phase.stack) : Piled last.phase.stack := by
  induction reaches with
  | refl moment => exact piled
  | past ran _ ih => exact ih ((piled_read _ _ piled).of_ok ran)
  | into opens _ ih => exact ih ((piled_openBracket _ _ _ _).of_ok opens)

/-- Where operators wait, an expression that ends with a value has reduced all of them. -/
theorem settles_of_collapse {top : Pending} {outer : List Pending} {term : Term}
    {after : Session σ} {value : Value}
    (ran : collapse settings (top :: outer) term session = .ok value after) :
    ∃ location, Settles settings none ⟨top :: outer, term, session⟩
      ⟨[], .value value location, after⟩ := by
  induction outer generalizing top term session with
  | nil =>
      rcases exists_of_bind_ok ran with ⟨reduced, reducedAfter, first, ran⟩
      cases ran
      exact ⟨top.location, .reduced top.givesWay_none first (.refl _)⟩
  | cons next outer ih =>
      rcases exists_of_bind_ok ran with ⟨reduced, reducedAfter, first, ran⟩
      rcases ih ran with ⟨location, further⟩
      exact ⟨location, .reduced top.givesWay_none first further⟩

/-- Behind an operand, what comes up makes an operator be reduced with the operands it has then. -/
inductive HandsOver (settings : Settings σ) (moment : Moment σ) : Pending → Prop where
  | behind {pending outer : List Pending} {term last : Term} {upcoming : Option BinaryOp}
      {start session : Session σ} {top : Pending} (phase : moment.phase = .operator pending term)
      (comesUp : ComesUp moment.session moment.ahead upcoming start)
      (settles : Settles settings upcoming ⟨pending, term, start⟩ ⟨top :: outer, last, session⟩)
      (gives : top.GivesWay upcoming) : HandsOver settings moment (top.push last)

theorem HandsOver.two_le_length {moment : Moment σ} {frame : Pending}
    (handsOver : HandsOver settings moment frame) (piled : Piled moment.phase.stack) :
    2 ≤ frame.operands.length := by
  cases handsOver with
  | @behind pending outer term last upcoming start after top phase comesUp settles gives =>
      rw [phase] at piled
      have supplied := (supplied_cons.mp (settles.piled piled).supplied).1
      have positive := List.length_pos_iff.mpr supplied
      simp only [Pending.push, List.length_append, List.length_cons, List.length_nil]
      omega

/--
Wherever reading comes to in a program, the operators that wait are in order, also between two
reductions. Whatever is handed over to be reduced has two operands at least. An operator goes on the
stack behind the last reduction that it brings about, and an expression with operators that ends
with a value has reduced all of them.
-/
theorem operators_wait_in_order (settings : Settings σ) (program : Forest) (session : Session σ)
    {moment : Moment σ}
    (reaches : Reaches settings ⟨.statements, .statement .void, program, session⟩ moment) :
    InOrder moment.phase.stack ∧
    (∀ frame, HandsOver settings moment frame → 2 ≤ frame.operands.length) ∧
    ∀ pending term, moment.phase = .operator pending term →
      (∀ upcoming start stage, ComesUp moment.session moment.ahead upcoming start →
        Settles settings upcoming ⟨pending, term, start⟩ stage → InOrder stage.pending) ∧
      (∀ operator location start pushed after,
        ComesUp moment.session moment.ahead (some operator) start →
          pushOperator settings operator location pending term start = .ok pushed after →
            InOrder pushed ∧ ∃ last,
              Settles settings (some operator) ⟨pending, term, start⟩ last ∧
              (∀ top ∈ last.pending.head?, ¬top.GivesWay (some operator)) ∧
              last.session = after ∧ pushed = last.take operator location) ∧
      ∀ start value after, pending ≠ [] → ComesUp moment.session moment.ahead none start →
        collapse settings pending term start = .ok value after →
          ∃ location, Settles settings none ⟨pending, term, start⟩
            ⟨[], .value value location, after⟩ := by
  have piled := reaches.piled Piled.nil
  refine ⟨piled.inOrder, fun frame handsOver => handsOver.two_le_length piled, ?_⟩
  intro pending term phase
  rw [phase] at piled
  refine ⟨?_, ?_, ?_⟩
  · intro upcoming start stage _ settles
    exact (settles.piled piled).inOrder
  · intro operator location start pushed after _ ran
    have pushedPiled : Piled pushed := (piled_pushOperator operator location piled term).of_ok ran
    exact ⟨pushedPiled.inOrder, settles_of_pushOperator ran⟩
  · intro start value after waits _ ran
    rcases pending with _ | ⟨top, outer⟩
    · exact absurd rfl waits
    · exact settles_of_collapse ran

theorem operators_wait_in_order_of_three :
    let settings : Settings Unit := {}
    let session : Session Unit := (Session.fresh ()).feed "let a = 1 - 2 * 3"
    let program := session.lexer.tokens.foldr Forest.leaf .nil
    ∃ moment, Reaches settings ⟨.statements, .statement .void, program, session⟩ moment ∧
      moment.phase.stack.map (·.operator) = [.mul, .sub, .assign] ∧
      InOrder moment.phase.stack ∧
      ∃ frame, HandsOver settings moment frame ∧ 2 ≤ frame.operands.length := by
  intro settings session program
  have leaves : LeavesWaiting settings session program [.mul, .sub, .assign] := by decide +kernel
  rcases leaves.exists_read with ⟨pending, term, after, ran, waits⟩
  have reaches : Reaches settings ⟨.statements, .statement .void, program, session⟩
      ⟨.statements, .operator pending term, .nil, after⟩ := by
    rw [← Forest.append_nil program]
    exact .past ran (.refl _)
  have ordered := operators_wait_in_order settings program session reaches
  refine ⟨_, reaches, waits, ordered.1, ?_⟩
  rcases pending with _ | ⟨top, outer⟩
  · cases waits
  · have handsOver : HandsOver settings ⟨.statements, .operator (top :: outer) term, .nil, after⟩
        (top.push term) := .behind rfl .closer (.refl _) top.givesWay_none
    exact ⟨_, handsOver, ordered.2.1 _ handsOver⟩

end Eval

end BlockCalc
