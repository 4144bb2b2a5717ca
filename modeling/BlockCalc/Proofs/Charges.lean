import BlockCalc.Proofs.Places
import Mathlib.Algebra.BigOperators.Group.List.Basic
import Mathlib.Algebra.Order.Group.Multiset
import Mathlib.Tactic.Abel
import Mathlib.Tactic.GCongr

/-!
# Steps and the tokens that pay for them

Every step but the first one of an evaluation is charged to a token. What waits while a program is
read holds the charges of its tokens that have not been paid: a pending operator holds its own and
those of the variables among its operands, each of which may become the target of an assignment. An
action pays for the steps that it records with what it is given, and what it gives back holds no
more than what is left. So no charge is paid twice, in whatever order operators are reduced and
wherever the evaluation ends.
-/

namespace BlockCalc

variable {σ α β : Type}

/-- What a step is charged to, with the place at which it is recorded. -/
inductive Charge where
  | declare (name : String) (location : Location)
  | enterScope (location : Location)
  | exitScope (location : Location)
  | reduce (operator : BinaryOp) (location : Location)
  | assign (name : String) (location : Location)

/-- What a step at a location is charged to, except that of the start, which is free. -/
def Step.charge? (location : Location) : Step → Option Charge
  | .parse _ => none
  | .declare name _ _ => some (.declare name location)
  | .enterScope _ => some (.enterScope location)
  | .exitScope _ _ => some (.exitScope location)
  | .reduce operator _ => some (.reduce operator location)
  | .assign name _ _ => some (.assign name location)

/-- The entry records a step that is charged so. -/
def Entry.Costs (entry : Entry) (charge : Charge) : Prop :=
  ∃ log step location, entry.Tells log step ∧ entry.location = some location ∧
    step.charge? location = some charge

/-- Entries that cost the charges have been added to a log. -/
def StepLog.Adds (log : StepLog) (charges : List Charge) (later : StepLog) : Prop :=
  ∃ entries, later.entries.toList = log.entries.toList ++ entries ∧
    List.Forall₂ Entry.Costs entries charges

namespace StepLog.Adds

variable {log middle later : StepLog} {charges others : List Charge}

theorem refl (log : StepLog) : log.Adds [] log :=
  ⟨[], by simp, .nil⟩

theorem trans (first : log.Adds charges middle) (second : middle.Adds others later) :
    log.Adds (charges ++ others) later := by
  rcases first with ⟨entries, added, costs⟩
  rcases second with ⟨more, addedMore, moreCost⟩
  exact ⟨entries ++ more, by rw [addedMore, added, List.append_assoc],
    List.rel_append costs moreCost⟩

end StepLog.Adds

/-- The charge of a variable, which may become the target of an assignment. -/
def Term.charges : Term → Multiset Charge
  | .variable name location => {.assign name location}
  | _ => 0

@[simp]
theorem Term.charges_value (value : Value) (location : Location) :
    (Term.value value location).charges = 0 :=
  rfl

/-- What a pending operator and its operands will be charged to. -/
def Pending.charges (pending : Pending) : Multiset Charge :=
  .reduce pending.operator pending.location ::ₘ (pending.operands.map Term.charges).sum

/-- The charges that the pending operators hold. -/
def waiting (pending : List Pending) : Multiset Charge :=
  (pending.map Pending.charges).sum

@[simp]
theorem waiting_nil : waiting [] = 0 :=
  rfl

@[simp]
theorem waiting_cons (top : Pending) (outer : List Pending) :
    waiting (top :: outer) = top.charges + waiting outer :=
  List.sum_cons

@[simp]
theorem Pending.charges_singleton (operator : BinaryOp) (term : Term) (location : Location) :
    Pending.charges ⟨operator, [term], location⟩ = .reduce operator location ::ₘ term.charges := by
  simp [Pending.charges]

@[simp]
theorem Pending.charges_push (pending : Pending) (term : Term) :
    (pending.push term).charges = pending.charges + term.charges := by
  simp [Pending.charges, Pending.push]

namespace Eval

/-- The action pays for the steps that it records with its budget and leaves the rest. -/
def Spends (buffer : Buffer) (action : Eval σ α) (budget : Multiset Charge)
    (rest : α → Multiset Charge) : Prop :=
  ∀ session, session.source = buffer.source → Ensures action session
    (fun result after => after.source = buffer.source ∧
      ∃ paid, session.log.Adds paid after.log ∧ ↑paid + rest result ≤ budget)
    (fun _ after => ∃ paid, session.log.Adds paid after.log ∧ ↑paid ≤ budget)

/-- The action records no step. -/
def Idles (buffer : Buffer) (action : Eval σ α) : Prop :=
  Spends buffer action 0 fun _ => 0

namespace Spends

variable {buffer : Buffer} {budget extra : Multiset Charge} {rest : α → Multiset Charge}
  {action : Eval σ α}

theorem pure {result : α} (within : rest result ≤ budget) :
    Spends buffer (Pure.pure result : Eval σ α) budget rest :=
  fun session same => ⟨same, [], .refl session.log, by simpa using within⟩

theorem fail (cause : Cause) (location : Option Location) :
    Spends buffer (Eval.fail cause location : Eval σ α) budget rest :=
  fun session _ => ⟨[], .refl session.log, Multiset.zero_le budget⟩

theorem bind {next : α → Eval σ β} {last : β → Multiset Charge}
    (first : Spends buffer action budget rest)
    (second : ∀ result, Spends buffer (next result) (rest result) last) :
    Spends buffer (action >>= next) budget last := by
  intro session same
  rw [ensures_bind]
  apply (first session same).mono
  · rintro result middle ⟨still, paid, adds, within⟩
    apply (second result middle still).mono
    · rintro final after ⟨stillAfter, paidMore, addsMore, withinRest⟩
      refine ⟨stillAfter, paid ++ paidMore, adds.trans addsMore, ?_⟩
      calc (↑(paid ++ paidMore) : Multiset Charge) + last final
          = ↑paid + (↑paidMore + last final) := by rw [← Multiset.coe_add, add_assoc]
        _ ≤ ↑paid + rest result := by gcongr
        _ ≤ budget := within
    · rintro failure after ⟨paidMore, addsMore, withinRest⟩
      refine ⟨paid ++ paidMore, adds.trans addsMore, ?_⟩
      calc (↑(paid ++ paidMore) : Multiset Charge)
          = ↑paid + ↑paidMore := (Multiset.coe_add paid paidMore).symm
        _ ≤ ↑paid + rest result := by gcongr
        _ ≤ budget := within
  · exact fun _ _ stopped => stopped

theorem mono {more : Multiset Charge} (spends : Spends buffer action budget rest)
    (enough : budget ≤ more) : Spends buffer action more rest := by
  intro session same
  apply (spends session same).mono
  · rintro result after ⟨still, paid, adds, within⟩
    exact ⟨still, paid, adds, within.trans enough⟩
  · rintro failure after ⟨paid, adds, within⟩
    exact ⟨paid, adds, within.trans enough⟩

/-- What is not needed is kept. -/
theorem frame (spends : Spends buffer action budget rest) (extra : Multiset Charge) :
    Spends buffer action (budget + extra) fun result => rest result + extra := by
  intro session same
  apply (spends session same).mono
  · rintro result after ⟨still, paid, adds, within⟩
    refine ⟨still, paid, adds, ?_⟩
    rw [← add_assoc]
    gcongr
  · rintro failure after ⟨paid, adds, within⟩
    exact ⟨paid, adds, within.trans (Multiset.le_add_right budget extra)⟩

/-- What follows an action may use what the action leaves and what it does not need. -/
theorem bind_frame {next : α → Eval σ β} {last : β → Multiset Charge}
    (first : Spends buffer action budget rest)
    (second : ∀ result, Spends buffer (next result) (rest result + extra) last) :
    Spends buffer (action >>= next) (budget + extra) last :=
  (first.frame extra).bind second

theorem idle_bind {next : α → Eval σ β} {last : β → Multiset Charge}
    (idles : Idles buffer action) (second : ∀ result, Spends buffer (next result) budget last) :
    Spends buffer (action >>= next) budget last := by
  have first := Spends.frame idles budget
  simp only [zero_add] at first
  exact first.bind second

theorem get_bind {next : Session σ → Eval σ α}
    (spends : ∀ session, Spends buffer (next session) budget rest) :
    Spends buffer (get >>= next) budget rest :=
  fun session same => spends session session same

theorem locating {location : Location} (spends : Spends buffer action budget rest) :
    Spends buffer (Eval.locating location action) budget rest := by
  intro session same
  rw [ensures_locating]
  exact spends session same

theorem locate_bind {settings : Settings σ} (sameFile : settings.fileName = buffer.fileName)
    {token : Token} {next : Location → Eval σ α}
    (spends : Spends buffer (next (buffer.place token)) budget rest) :
    Spends buffer (locate settings token >>= next) budget rest := by
  intro session same
  rw [ensures_bind, ensures_locate, same, sameFile]
  exact spends session same

end Spends

section Idle

variable {buffer : Buffer}

/-- An action that leaves the log and the source as they are records no step. -/
theorem idles_of_unchanged {action : Eval σ α}
    (unchanged : ∀ session, Ensures action session
      (fun _ after => after.log = session.log ∧ after.source = session.source)
      (fun _ after => after.log = session.log)) : Idles buffer action := by
  intro session same
  apply (unchanged session).mono
  · rintro _ after ⟨log, source⟩
    exact ⟨source.trans same, [], log ▸ .refl _, by simp⟩
  · rintro _ after log
    exact ⟨[], log ▸ .refl _, by simp⟩

theorem idles_ofExcept (outcome : Except Cause α) :
    Idles buffer (ofExcept outcome : Eval σ α) := by
  cases outcome with
  | ok result => exact .pure le_rfl
  | error cause => exact .fail _ _

theorem idles_setScope (scope : Scope) : Idles buffer (setScope scope : Eval σ Unit) :=
  idles_of_unchanged fun _ => ⟨rfl, rfl⟩

theorem idles_advance : Idles buffer (advance : Eval σ Unit) :=
  idles_of_unchanged fun _ => ⟨rfl, rfl⟩

theorem idles_closeGroup (closer : Option Token) :
    Idles buffer (closeGroup closer : Eval σ Unit) := by
  apply idles_of_unchanged
  intro session
  simp only [closeGroup, ensures_bind, ensures_get]
  split
  · exact rfl
  · split
    · exact ⟨rfl, rfl⟩
    · exact rfl

theorem idles_openGroup (settings : Settings σ) (bracket : Bracket) (location : Location) :
    Idles buffer (openGroup settings bracket location) := by
  apply idles_of_unchanged
  intro session
  simp only [openGroup, ensures_bind, ensures_get]
  split
  · exact rfl
  · exact ⟨rfl, rfl⟩

theorem idles_endExpression (enclosure : Enclosure) :
    Idles buffer (endExpression enclosure : Eval σ Unit) := by
  cases enclosure with
  | statements => exact .pure le_rfl
  | parenthesis group => exact .fail _ _

theorem idles_resolve (term : Term) : Idles buffer (resolve term : Eval σ Value) := by
  induction term with
  | «variable» name location => exact .get_bind fun session => .locating (idles_ofExcept _)
  | value value location => exact .pure le_rfl
  | unary operator operand location ih =>
      exact .idle_bind ih fun value => .locating (idles_ofExcept _)

theorem idles_combine (operator : BinaryOp) (value : Value) (terms : List Term) :
    Idles buffer (combine operator value terms : Eval σ Value) := by
  induction terms generalizing value with
  | nil => exact .pure le_rfl
  | cons term rest ih =>
      simp only [combine]
      split
      · exact .pure le_rfl
      · apply Spends.idle_bind (idles_resolve term)
        intro right
        apply Spends.idle_bind (idles_ofExcept _)
        intro combined
        exact ih combined

theorem idles_store (operator : BinaryOp) (name : String) (right : Value) :
    Idles buffer (store operator name right : Eval σ Value) := by
  rw [store_eq]
  apply Spends.get_bind
  intro session
  apply Spends.idle_bind (idles_ofExcept _)
  rintro ⟨value, scope⟩
  exact .idle_bind (idles_setScope scope) fun _ => .pure le_rfl

end Idle

section Steps

variable {settings : Settings σ} {buffer : Buffer} (quiet : settings.hooks = .none)

include quiet

/-- A recorded step costs its charge. -/
theorem spends_record {step : Step} {location : Location} {charge : Charge}
    (charged : step.charge? location = some charge) (rest : Multiset Charge) :
    Spends buffer (record settings step (some location)) (charge ::ₘ rest) fun _ => rest := by
  intro session same
  simp only [Ensures, record_logged quiet]
  refine ⟨same, [charge], ⟨[session.entry settings step (some location)], ?_, ?_⟩, ?_⟩
  · simp [Session.logged, StepLog.push]
  · exact .cons ⟨session.log, step, location, session.tells_entry settings step _, rfl, charged⟩
      .nil
  · rw [Multiset.coe_singleton, Multiset.singleton_add]

theorem spends_enterBlock (location : Location) (rest : Multiset Charge) :
    Spends buffer (enterBlock settings location) (.enterScope location ::ₘ rest)
      fun _ => rest := by
  rw [enterBlock_of_quiet quiet]
  apply Spends.get_bind
  intro session
  apply Spends.idle_bind (idles_setScope _)
  intro _
  exact spends_record quiet rfl rest

theorem spends_exitBlock (location : Location) :
    Spends buffer (exitBlock settings location) {.exitScope location} fun _ => 0 := by
  rw [exitBlock_of_quiet quiet]
  apply Spends.get_bind
  intro session
  apply Spends.idle_bind (idles_ofExcept _)
  rintro ⟨frame, outer⟩
  apply Spends.idle_bind (idles_setScope outer)
  intro _
  exact spends_record quiet rfl 0

/-- Assigning pays with the charges of the targets. -/
theorem spends_assignAll (operator : BinaryOp) (right : Value) (targets : List Term) :
    Spends buffer (assignAll settings operator right targets) (targets.map Term.charges).sum
      fun _ => 0 := by
  induction targets generalizing right with
  | nil => exact .pure le_rfl
  | cons target rest ih =>
      cases target with
      | «variable» name location =>
          simp only [assignAll, List.map_cons, List.sum_cons, Term.charges,
            Multiset.singleton_add]
          apply Spends.idle_bind (idles_store operator name right)
          intro value
          apply (spends_record quiet rfl _).bind
          intro _
          exact ih value
      | value value location => exact .fail _ _
      | unary unary operand location => exact .fail _ _

/-- A reduction pays with the charges of its operator. -/
theorem spends_reduce (pending : Pending) :
    Spends buffer (reduce settings pending) pending.charges fun _ => 0 := by
  rcases pending with ⟨operator, _ | ⟨first, _ | ⟨second, rest⟩⟩, location⟩
  · exact .fail _ _
  · exact .fail _ _
  · apply (spends_record quiet rfl _).bind
    intro _
    apply Spends.locating
    split
    · split
      · rename_i last targets reversed
        have sameCharges : (last.charges + (targets.map Term.charges).sum : Multiset Charge) =
            ((first :: second :: rest).map Term.charges).sum := by
          rw [← List.sum_cons, ← List.map_cons, ← reversed, List.map_reverse, List.sum_reverse]
        rw [← sameCharges]
        apply Spends.idle_bind (idles_resolve last)
        intro value
        have assigns : Spends buffer
            (do assignAll settings operator value targets; return Value.void)
            (targets.map Term.charges).sum fun _ => 0 :=
          (spends_assignAll quiet operator value targets).bind fun _ => .pure le_rfl
        exact assigns.mono (Multiset.le_add_left _ _)
      · exact .pure (Multiset.zero_le _)
    · apply Spends.idle_bind (idles_resolve first)
      intro value
      exact (idles_combine operator value (second :: rest)).mono (Multiset.zero_le _)

theorem spends_collapse (pending : List Pending) (term : Term) :
    Spends buffer (collapse settings pending term) (waiting pending + term.charges)
      fun _ => 0 := by
  induction pending generalizing term with
  | nil => exact (idles_resolve term).mono (Multiset.zero_le _)
  | cons top outer ih =>
      have budget : waiting (top :: outer) + term.charges =
          (top.push term).charges + waiting outer := by
        rw [waiting_cons, Pending.charges_push]
        abel
      rw [budget]
      apply (spends_reduce quiet (top.push term)).bind_frame
      intro value
      simpa using ih (.value value top.location)

/-- An operator that is put on the stack brings its charge along or joins one that has paid. -/
theorem spends_pushOperator (operator : BinaryOp) (location : Location) (pending : List Pending)
    (term : Term) :
    Spends buffer (pushOperator settings operator location pending term)
      (.reduce operator location ::ₘ (waiting pending + term.charges)) waiting := by
  induction pending generalizing term with
  | nil => exact .pure (by simp)
  | cons top outer ih =>
      simp only [pushOperator]
      split
      · apply Spends.pure
        rw [waiting_cons, waiting_cons, Pending.charges_push, add_right_comm]
        exact Multiset.le_cons_self _ _
      · split
        · have budget : .reduce operator location ::ₘ (waiting (top :: outer) + term.charges) =
              (top.push term).charges + .reduce operator location ::ₘ waiting outer := by
            rw [waiting_cons, Pending.charges_push, ← Multiset.singleton_add,
              ← Multiset.singleton_add]
            abel
          rw [budget]
          apply (spends_reduce quiet (top.push term)).bind_frame
          intro value
          simpa using ih (.value value top.location)
        · apply Spends.pure
          rw [waiting_cons, Pending.charges_singleton, Multiset.cons_add, add_comm term.charges]

end Steps

end Eval

end BlockCalc
