import BlockCalc.Evaluation.Parse

/-!
# What actions ensure

An action either gives a result or fails, and leaves a session behind in both cases. `Eval.Ensures`
states what holds of the result or of the failure together with that session. Its rules take an
action apart along the sequence in which it was written, so that what a long action ensures follows
from what its parts ensure.
-/

namespace BlockCalc.Eval

variable {σ α β : Type}

/--
From a session, an action either gives a result that `returns` holds of or fails with a failure that
`fails` holds of.
-/
def Ensures (action : Eval σ α) (session : Session σ) (returns : α → Session σ → Prop)
    (fails : Failure → Session σ → Prop) : Prop :=
  match action session with
  | .ok result after => returns result after
  | .error failure after => fails failure after

theorem Ensures.mono {action : Eval σ α} {session : Session σ}
    {returns weakerReturns : α → Session σ → Prop}
    {fails weakerFails : Failure → Session σ → Prop}
    (ensures : Ensures action session returns fails)
    (onResult : ∀ result after, returns result after → weakerReturns result after)
    (onFailure : ∀ failure after, fails failure after → weakerFails failure after) :
    Ensures action session weakerReturns weakerFails := by
  simp only [Ensures] at ensures ⊢
  cases ran : action session with
  | ok result after =>
      simp only [ran] at ensures
      exact onResult result after ensures
  | error failure after =>
      simp only [ran] at ensures
      exact onFailure failure after ensures

/-- An action that never fails may be said to fail in any way. -/
theorem Ensures.of_infallible {action : Eval σ α} {session : Session σ}
    {returns : α → Session σ → Prop} {fails : Failure → Session σ → Prop}
    (ensures : Ensures action session returns fun _ _ => False) :
    Ensures action session returns fails :=
  ensures.mono (fun _ _ holds => holds) fun _ _ impossible => impossible.elim

theorem Ensures.of_ok {action : Eval σ α} {session after : Session σ} {result : α}
    {returns : α → Session σ → Prop} {fails : Failure → Session σ → Prop}
    (ensures : Ensures action session returns fails) (ran : action session = .ok result after) :
    returns result after := by
  simpa only [Ensures, ran] using ensures

theorem Ensures.of_error {action : Eval σ α} {session after : Session σ} {failure : Failure}
    {returns : α → Session σ → Prop} {fails : Failure → Session σ → Prop}
    (ensures : Ensures action session returns fails)
    (ran : action session = .error failure after) :
    fails failure after := by
  simpa only [Ensures, ran] using ensures

theorem ensures_trivial (action : Eval σ α) (session : Session σ) :
    Ensures action session (fun _ _ => True) (fun _ _ => True) := by
  simp only [Ensures]
  split <;> trivial

theorem bind_of_ok {action : Eval σ α} {next : α → Eval σ β} {result : α}
    {session after : Session σ} (ran : action session = .ok result after) :
    (action >>= next) session = next result after := by
  change EStateM.bind action next session = _
  simp only [EStateM.bind, ran]

theorem bind_of_error {action : Eval σ α} {next : α → Eval σ β} {failure : Failure}
    {session after : Session σ} (ran : action session = .error failure after) :
    (action >>= next) session = .error failure after := by
  change EStateM.bind action next session = _
  simp only [EStateM.bind, ran]

/-- Actions that run alike are followed alike. -/
theorem bind_of_eq {action other : Eval σ α} {session another : Session σ}
    (same : action session = other another) (next : α → Eval σ β) :
    (action >>= next) session = (other >>= next) another := by
  change EStateM.bind action next session = EStateM.bind other next another
  simp only [EStateM.bind, same]

theorem advance_eq_ok (session : Session σ) :
    advance session = .ok () { session with position := session.position + 1 } :=
  rfl

theorem exists_of_bind_ok {action : Eval σ α} {next : α → Eval σ β} {session after : Session σ}
    {result : β} (ran : (action >>= next) session = .ok result after) :
    ∃ first middle, action session = .ok first middle ∧ next first middle = .ok result after := by
  cases began : action session with
  | ok first middle =>
      rw [bind_of_ok began] at ran
      exact ⟨first, middle, rfl, ran⟩
  | error failure stopped =>
      rw [bind_of_error began] at ran
      cases ran

theorem exists_of_bind_error {action : Eval σ α} {next : α → Eval σ β}
    {session stopped : Session σ} {failure : Failure}
    (failed : (action >>= next) session = .error failure stopped) :
    action session = .error failure stopped ∨
      ∃ result middle, action session = .ok result middle ∧
        next result middle = .error failure stopped := by
  cases ran : action session with
  | ok result middle =>
      rw [bind_of_ok ran] at failed
      exact Or.inr ⟨result, middle, rfl, failed⟩
  | error raised broken =>
      rw [bind_of_error ran] at failed
      cases failed
      exact Or.inl rfl

/-- A failure that an action never fails with is one of what follows it. -/
theorem Ensures.exists_of_bind_error {action : Eval σ α} {next : α → Eval σ β}
    {session stopped : Session σ} {failure : Failure} {middle : α → Session σ → Prop}
    {fails : Failure → Session σ → Prop} (ensures : Ensures action session middle fails)
    (failed : (action >>= next) session = .error failure stopped) (never : ¬fails failure stopped) :
    ∃ result after, action session = .ok result after ∧ middle result after ∧
      next result after = .error failure stopped := by
  rcases Eval.exists_of_bind_error failed with raised | ⟨result, after, ran, failed⟩
  · exact absurd (ensures.of_error raised) never
  · exact ⟨result, after, ran, ensures.of_ok ran, failed⟩

/-- A failure that what follows an action never fails with is one of the action. -/
theorem Ensures.error_of_bind {action : Eval σ α} {next : α → Eval σ β}
    {session stopped : Session σ} {failure : Failure} {middle : α → Session σ → Prop}
    {raises fails : Failure → Session σ → Prop} {returns : β → Session σ → Prop}
    (ensures : Ensures action session middle raises)
    (follows : ∀ result after, middle result after → Ensures (next result) after returns fails)
    (failed : (action >>= next) session = .error failure stopped) (never : ¬fails failure stopped) :
    action session = .error failure stopped := by
  rcases Eval.exists_of_bind_error failed with raised | ⟨result, after, ran, failed⟩
  · exact raised
  · exact absurd ((follows result after (ensures.of_ok ran)).of_error failed) never

/-- An action whose result is known is followed by what follows that result. -/
theorem bind_of_ensures {action : Eval σ α} {next : α → Eval σ β} {result : α}
    (known : ∀ session, Ensures action session (fun other _ => other = result) (fun _ _ => True)) :
    action >>= next = action >>= fun _ => next result := by
  funext session
  cases ran : action session with
  | ok other after =>
      rw [bind_of_ok ran, bind_of_ok ran, (known session).of_ok ran]
  | error failure after => rw [bind_of_error ran, bind_of_error ran]

section Rules

variable {session : Session σ} {fails : Failure → Session σ → Prop}

@[simp]
theorem ensures_pure (result : α) {returns : α → Session σ → Prop} :
    Ensures (pure result) session returns fails ↔ returns result session :=
  Iff.rfl

@[simp]
theorem ensures_bind (action : Eval σ α) (next : α → Eval σ β)
    {returns : β → Session σ → Prop} :
    Ensures (action >>= next) session returns fails ↔
      Ensures action session (fun result after => Ensures (next result) after returns fails)
        fails := by
  change Ensures (EStateM.bind action next) session returns fails ↔ _
  simp only [Ensures, EStateM.bind]
  cases action session <;> rfl

@[simp]
theorem ensures_map (transform : α → β) (action : Eval σ α) {returns : β → Session σ → Prop} :
    Ensures (transform <$> action) session returns fails ↔
      Ensures action session (fun result => returns (transform result)) fails := by
  change Ensures (EStateM.map transform action) session returns fails ↔ _
  simp only [Ensures, EStateM.map]
  cases action session <;> rfl

@[simp]
theorem ensures_get {returns : Session σ → Session σ → Prop} :
    Ensures get session returns fails ↔ returns session session :=
  Iff.rfl

@[simp]
theorem ensures_set (other : Session σ) {returns : PUnit → Session σ → Prop} :
    Ensures (set other) session returns fails ↔ returns ⟨⟩ other :=
  Iff.rfl

@[simp]
theorem ensures_modify (change : Session σ → Session σ) {returns : PUnit → Session σ → Prop} :
    Ensures (modify change) session returns fails ↔ returns ⟨⟩ (change session) :=
  Iff.rfl

@[simp]
theorem ensures_throw (failure : Failure) {returns : α → Session σ → Prop} :
    Ensures (throw failure) session returns fails ↔ fails failure session :=
  Iff.rfl

@[simp]
theorem ensures_fail (cause : Cause) (location : Option Location)
    {returns : α → Session σ → Prop} :
    Ensures (fail cause location) session returns fails ↔ fails { cause, location } session :=
  Iff.rfl

@[simp]
theorem ensures_ofExcept_ok (result : α) {returns : α → Session σ → Prop} :
    Ensures (ofExcept (.ok result)) session returns fails ↔ returns result session :=
  Iff.rfl

@[simp]
theorem ensures_ofExcept_error (cause : Cause) {returns : α → Session σ → Prop} :
    Ensures (ofExcept (.error cause)) session returns fails ↔ fails { cause } session :=
  Iff.rfl

@[simp]
theorem ensures_locating (location : Location) (action : Eval σ α)
    {returns : α → Session σ → Prop} :
    Ensures (locating location action) session returns fails ↔
      Ensures action session returns (fun failure => fails (failure.locate location)) := by
  simp only [Ensures, locating, EStateM.adaptExcept]
  cases action session <;> rfl

@[simp]
theorem ensures_locate (settings : Settings σ) (token : Token)
    {returns : Location → Session σ → Prop} :
    Ensures (locate settings token) session returns fails ↔
      returns
        { file := settings.fileName
          line := token.start.line
          column := token.start.column
          statement := session.source.statement token.start.line } session :=
  Iff.rfl

@[simp]
theorem ensures_setScope (scope : Scope) {returns : PUnit → Session σ → Prop} :
    Ensures (setScope scope) session returns fails ↔ returns ⟨⟩ { session with scope } :=
  Iff.rfl

@[simp]
theorem ensures_advance {returns : PUnit → Session σ → Prop} :
    Ensures advance session returns fails ↔
      returns ⟨⟩ { session with position := session.position + 1 } :=
  Iff.rfl

theorem Ensures.bind {action : Eval σ α} {next : α → Eval σ β}
    {middle : α → Session σ → Prop} {returns : β → Session σ → Prop}
    (first : Ensures action session middle fails)
    (second : ∀ result after, middle result after → Ensures (next result) after returns fails) :
    Ensures (action >>= next) session returns fails :=
  (ensures_bind action next).mpr (first.mono second fun _ _ failed => failed)

theorem Ensures.imp {action : Eval σ α} {returns weakerReturns : α → Session σ → Prop}
    (ensures : Ensures action session returns fails)
    (onResult : ∀ result after, returns result after → weakerReturns result after) :
    Ensures action session weakerReturns fails :=
  ensures.mono onResult fun _ _ failed => failed

end Rules

end BlockCalc.Eval
