import BlockCalc.Proofs.Onlooking
import Mathlib.Data.List.Induction

/-!
# The order of listeners

The listeners of an event are sorted again whenever one is registered. `StableOrder` says what the
order is, without saying how it is kept: by descending priority, and those of equal priority as they
were registered. There is only one such order, so that sorting again and again gives what sorting
the whole list once gives. Registrations that are rejected and those for other events
have no part in it. An event calls its listeners in this order, and after one that complains no
other one.
-/

namespace BlockCalc

variable {σ : Type}

/-- The listeners by descending priority; those of equal priority keep their order. -/
structure StableOrder (listeners ordered : List (Listener σ)) : Prop where
  descending : ordered.Pairwise fun first second => second.priority ≤ first.priority
  ties : ∀ priority : Int, ordered.filter (·.priority = priority) =
    listeners.filter (·.priority = priority)

namespace StableOrder

variable {listeners ordered other : List (Listener σ)}

theorem mem_iff (stable : StableOrder listeners ordered) (listener : Listener σ) :
    listener ∈ ordered ↔ listener ∈ listeners := by
  have same := congrArg (listener ∈ ·) (stable.ties listener.priority)
  simpa using same

/-- The first listener of an order has a greatest priority. -/
theorem priority_le_first {first : Listener σ} {rest : List (Listener σ)}
    (stable : StableOrder listeners (first :: rest)) {listener : Listener σ}
    (mem : listener ∈ listeners) : listener.priority ≤ first.priority := by
  rw [← stable.mem_iff, List.mem_cons] at mem
  rcases mem with rfl | later
  · exact Int.le_refl _
  · exact List.rel_of_pairwise_cons stable.descending later

theorem unique (stable : StableOrder listeners ordered)
    (otherStable : StableOrder listeners other) : ordered = other := by
  induction ordered generalizing listeners other with
  | nil =>
      cases other with
      | nil => rfl
      | cons first rest =>
          have mem := (otherStable.mem_iff first).mp List.mem_cons_self
          cases (stable.mem_iff first).mpr mem
  | cons first rest ih =>
      have mem := (stable.mem_iff first).mp List.mem_cons_self
      cases other with
      | nil => cases (otherStable.mem_iff first).mpr mem
      | cons otherFirst otherRest =>
          have otherMem := (otherStable.mem_iff otherFirst).mp List.mem_cons_self
          have samePriority : otherFirst.priority = first.priority :=
            Int.le_antisymm (stable.priority_le_first otherMem) (otherStable.priority_le_first mem)
          have sameTies (priority : Int) := (stable.ties priority).trans
            (otherStable.ties priority).symm
          have same : first = otherFirst := by
            have heads := sameTies first.priority
            rw [List.filter_cons_of_pos (by simp), List.filter_cons_of_pos (by simp [samePriority])]
              at heads
            exact (List.cons.inj heads).1
          subst same
          have sameRest (priority : Int) : otherRest.filter (·.priority = priority) =
              rest.filter (·.priority = priority) := by
            have ties := sameTies priority
            rw [List.filter_cons, List.filter_cons] at ties
            split at ties
            · exact (List.cons.inj ties).2.symm
            · exact ties.symm
          rw [ih ⟨stable.descending.of_cons, fun _ => rfl⟩
            ⟨otherStable.descending.of_cons, sameRest⟩]

theorem mergeSort (listeners : List (Listener σ)) :
    StableOrder listeners (listeners.mergeSort Listener.precedes) := by
  have trans (first second third : Listener σ) (before : first.precedes second = true)
      (behind : second.precedes third = true) : first.precedes third = true := by
    simp only [Listener.precedes, decide_eq_true_eq] at before behind ⊢
    exact Int.le_trans behind before
  have total (first second : Listener σ) :
      (first.precedes second || second.precedes first) = true := by
    simp only [Listener.precedes, Bool.or_eq_true, decide_eq_true_eq]
    exact Int.le_total _ _
  constructor
  · exact (List.pairwise_mergeSort trans total listeners).imp fun before => of_decide_eq_true before
  · intro priority
    have tied : (listeners.filter (·.priority = priority)).Pairwise
        fun first second => first.precedes second = true := by
      apply List.pairwise_of_forall_mem_list
      intro first firstMem second secondMem
      simp only [List.mem_filter, decide_eq_true_eq] at firstMem secondMem
      simp [Listener.precedes, firstMem.2, secondMem.2]
    have sublist := (List.sublist_mergeSort trans total tied List.filter_sublist).filter
      fun listener => decide (listener.priority = priority)
    simp only [List.filter_filter, Bool.and_self] at sublist
    exact (sublist.eq_of_length ((List.mergeSort_perm listeners _).filter _).length_eq.symm).symm

end StableOrder

namespace StableOrder

variable {listener : Listener σ} {listeners ordered : List (Listener σ)}

/-- Adding a listener at the end and sorting again keeps the order. -/
theorem resort (stable : StableOrder listeners ordered) :
    StableOrder (listeners ++ [listener])
      ((ordered ++ [listener]).mergeSort Listener.precedes) where
  descending := (mergeSort _).descending
  ties priority := by
    rw [(mergeSort _).ties, List.filter_append, List.filter_append, stable.ties]

/-- The listener behind all those that have at least its priority. -/
theorem insert
    (descending : ordered.Pairwise fun first second => second.priority ≤ first.priority) :
    StableOrder (ordered ++ [listener])
      (ordered.takeWhile (listener.priority ≤ ·.priority) ++
        listener :: ordered.dropWhile (listener.priority ≤ ·.priority)) := by
  induction ordered with
  | nil => exact ⟨List.pairwise_singleton _ _, fun _ => rfl⟩
  | cons first rest ih =>
      rcases List.pairwise_cons.mp descending with ⟨firstGreatest, restDescending⟩
      by_cases lower : listener.priority ≤ first.priority
      · have inserted := ih restDescending
        simp only [List.takeWhile_cons, List.dropWhile_cons, lower, decide_true, if_true,
          List.cons_append]
        constructor
        · refine List.pairwise_cons.mpr ⟨?_, inserted.descending⟩
          intro other mem
          rw [inserted.mem_iff, List.mem_append, List.mem_singleton] at mem
          rcases mem with mem | rfl
          · exact firstGreatest other mem
          · exact lower
        · intro priority
          rw [List.filter_cons, inserted.ties, List.filter_cons]
      · have less : ∀ other ∈ first :: rest, other.priority < listener.priority := by
          intro other mem
          rcases List.mem_cons.mp mem with rfl | mem
          · exact Int.not_le.mp lower
          · exact Int.lt_of_le_of_lt (firstGreatest other mem) (Int.not_le.mp lower)
        simp only [List.takeWhile_cons, List.dropWhile_cons, lower, decide_false,
          Bool.false_eq_true, if_false, List.nil_append]
        constructor
        · exact List.pairwise_cons.mpr ⟨fun other mem => Int.le_of_lt (less other mem), descending⟩
        · intro priority
          by_cases same : listener.priority = priority
          · have noOther : (first :: rest).filter (·.priority = priority) = [] := by
              rw [List.filter_eq_nil_iff]
              intro other mem isSame
              have different := less other mem
              rw [decide_eq_true_eq] at isSame
              omega
            rw [List.filter_append, noOther, List.filter_cons_of_pos (by simp [same]), noOther]
            simp [same]
          · rw [List.filter_append, List.filter_cons_of_neg (by simp [same])]
            simp [same]

end StableOrder

/-- A listener that is added to sorted ones comes behind all that have at least its priority. -/
theorem mergeSort_append_singleton {ordered : List (Listener σ)}
    (descending : ordered.Pairwise fun first second => second.priority ≤ first.priority)
    (listener : Listener σ) :
    (ordered ++ [listener]).mergeSort Listener.precedes =
      ordered.takeWhile (listener.priority ≤ ·.priority) ++
        listener :: ordered.dropWhile (listener.priority ≤ ·.priority) :=
  (StableOrder.mergeSort _).unique (.insert descending)

theorem Event.ofName?_eq_some_iff {name : String} {event : Event} :
    ofName? name = some event ↔ event.name = name := by
  constructor
  · intro found
    simpa using List.find?_some found
  · rintro rfl
    cases event <;> decide

/-- An attempt to register a listener for an event, or a step rule. -/
inductive Registration (σ : Type) where
  | listen (eventName : String) (listener : Listener σ)
  | addStepRule (name : String) (period : Int) (handle : StepNotice → Session σ → Reaction σ)

namespace Registration

/-- Listeners have to wait for an event that there is, and step rules need a period. -/
def Acceptable : Registration σ → Prop
  | .listen eventName _ => ∃ event : Event, event.name = eventName
  | .addStepRule _ period _ => 1 ≤ period

/-- The registration is about listeners of the event. -/
def IsFor (event : Event) : Registration σ → Prop
  | .listen eventName _ => eventName = event.name
  | .addStepRule _ _ _ => False

/-- The listener of the event that is registered, if it is one. -/
def listenerOf? (event : Event) : Registration σ → Option (Listener σ)
  | .listen eventName listener => if eventName = event.name then some listener.named else none
  | .addStepRule _ _ _ => none

/-- The listeners of an event in the order in which they are registered. -/
def listenersOf (event : Event) (registrations : List (Registration σ)) : List (Listener σ) :=
  registrations.filterMap (listenerOf? event)

theorem listenerOf?_of_not_isFor {event : Event} {registration : Registration σ}
    (other : ¬registration.IsFor event) : registration.listenerOf? event = none := by
  cases registration with
  | listen eventName listener => exact if_neg other
  | addStepRule name period handle => rfl

end Registration

namespace Hooks

/-- The handlers after a registration, which may be refused. -/
def register (hooks : Hooks σ) : Registration σ → Except RegistrationError (Hooks σ)
  | .listen eventName listener => hooks.listen eventName listener
  | .addStepRule name period handle => hooks.addStepRule name period handle

/-- The hooks after an attempt to register, which leaves them as they are if it is rejected. -/
def after (hooks : Hooks σ) (registration : Registration σ) : Hooks σ :=
  match hooks.register registration with
  | .ok changed => changed
  | .error _ => hooks

/-- The handlers after registrations, of which those that are refused change nothing. -/
def afterAll (registrations : List (Registration σ)) : Hooks σ :=
  registrations.foldl after none

theorem register_eq_error_iff (hooks : Hooks σ) (registration : Registration σ) :
    (∃ error, hooks.register registration = .error error) ↔ ¬registration.Acceptable := by
  cases registration with
  | listen eventName listener =>
      simp only [register, listen, Registration.Acceptable, ← Event.ofName?_eq_some_iff]
      cases Event.ofName? eventName <;> simp
  | addStepRule name period handle =>
      simp only [register, addStepRule, Registration.Acceptable]
      split
      · rename_i positive
        simpa using Int.add_one_le_iff.mpr positive
      · rename_i notPositive
        simpa using fun long : 1 ≤ period => notPositive long

theorem after_of_not_acceptable (hooks : Hooks σ) {registration : Registration σ}
    (rejected : ¬registration.Acceptable) : hooks.after registration = hooks := by
  rcases (hooks.register_eq_error_iff registration).mpr rejected with ⟨error, failed⟩
  rw [after, failed]

/-- A registration adds its listener, if it has one for the event, and no other one. -/
theorem listeners_after (hooks : Hooks σ) (registration : Registration σ) (event : Event) :
    (hooks.after registration).listeners event =
      match registration.listenerOf? event with
      | some listener => (hooks.listeners event ++ [listener]).mergeSort Listener.precedes
      | Option.none => hooks.listeners event := by
  cases registration with
  | listen eventName listener =>
      simp only [after, register, listen, Registration.listenerOf?]
      cases found : Event.ofName? eventName with
      | none =>
          have other : eventName ≠ event.name := by
            rintro rfl
            cases found.symm.trans (Event.ofName?_eq_some_iff.mpr rfl)
          simp only [other, if_false]
      | some waitedFor =>
          rw [Event.ofName?_eq_some_iff] at found
          subst found
          by_cases same : event = waitedFor
          · subst same
            simp only [if_true]
          · have other : waitedFor.name ≠ event.name := by
              intro sameName
              have found := Event.ofName?_eq_some_iff.mpr sameName
              rw [Event.ofName?_eq_some_iff.mpr rfl, Option.some.injEq] at found
              exact same found
            simp only [same, other, if_false]
  | addStepRule name period handle =>
      simp only [after, register, addStepRule, Registration.listenerOf?]
      split
      · rename_i changed registered
        split at registered
        · cases registered
          rfl
        · cases registered
      · rfl

theorem stableOrder_afterAll (registrations : List (Registration σ)) (event : Event) :
    StableOrder (Registration.listenersOf event registrations)
      ((afterAll registrations).listeners event) := by
  induction registrations using List.reverseRecOn with
  | nil => exact ⟨.nil, fun _ => rfl⟩
  | append_singleton registrations last ih =>
      rw [Registration.listenersOf] at ih ⊢
      rw [afterAll, List.foldl_append, List.foldl_cons, List.foldl_nil, listeners_after,
        List.filterMap_append, List.filterMap_cons, List.filterMap_nil]
      cases last.listenerOf? event with
      | none =>
          rw [List.append_nil]
          exact ih
      | some listener => exact ih.resort

theorem listenerNames_name (hooks : Hooks σ) (event : Event) :
    hooks.listenerNames event.name = (hooks.listeners event).map (·.name) := by
  rw [listenerNames, Event.ofName?_eq_some_iff.mpr rfl]

end Hooks

/-- What listeners are told, and the session in which they are told it. -/
structure Telling (σ : Type) where
  notice : Notice
  session : Session σ

namespace Telling

/-- What a listener makes of it. -/
def after (telling : Telling σ) (listener : Listener σ) : Telling σ :=
  let reaction := listener.handle telling.notice telling.session
  { notice := reaction.edit telling.notice
    session := reaction.leave telling.notice.discarded? telling.session }

/-- What some listeners make of it that are called one after the other. -/
def afterAll (telling : Telling σ) (listeners : List (Listener σ)) : Telling σ :=
  listeners.foldl after telling

/-- What a listener complains about. -/
def complaint? (telling : Telling σ) (listener : Listener σ) : Option Complaint :=
  (listener.handle telling.notice telling.session).complaint

/-- The failure that a complaint becomes; a crash is placed at the last step. -/
def failure (telling : Telling σ) (complaint : Complaint) : Failure :=
  complaint.toFailure fun reason =>
    { cause := .unhandled (.handlerCrashed telling.notice.event reason)
      location := telling.session.log.lastLocation }

/-- No listener complains when they are called one after the other. -/
def Silent (telling : Telling σ) (listeners : List (Listener σ)) : Prop :=
  ∀ before listener behind, listeners = before ++ listener :: behind →
    (telling.afterAll before).complaint? listener = none

/-- The listeners are called in order up to the first one that complains. -/
inductive Calls (telling : Telling σ) (listeners : List (Listener σ)) :
    EStateM.Result Failure (Session σ) Unit → Prop where
  | all (silent : telling.Silent listeners) :
      Calls telling listeners (.ok () (telling.afterAll listeners).session)
  | upTo {before behind : List (Listener σ)} {listener : Listener σ} {complaint : Complaint}
      (split : listeners = before ++ listener :: behind) (silent : telling.Silent before)
      (complains : (telling.afterAll before).complaint? listener = some complaint) :
      Calls telling listeners
        (.error ((telling.afterAll before).failure complaint)
          (telling.afterAll (before ++ [listener])).session)

theorem silent_nil (telling : Telling σ) : telling.Silent [] := by
  intro before listener behind split
  simp at split

variable {telling : Telling σ} {first : Listener σ} {rest : List (Listener σ)}

theorem silent_cons (silent : telling.complaint? first = none)
    (restSilent : (telling.after first).Silent rest) : telling.Silent (first :: rest) := by
  intro before listener behind split
  cases before with
  | nil =>
      cases split
      exact silent
  | cons _ before =>
      rw [List.cons_append, List.cons.injEq] at split
      rcases split with ⟨rfl, split⟩
      exact restSilent before listener behind split

theorem Calls.cons {result : EStateM.Result Failure (Session σ) Unit}
    (silent : telling.complaint? first = none) (calls : (telling.after first).Calls rest result) :
    telling.Calls (first :: rest) result := by
  cases calls with
  | all restSilent => exact .all (silent_cons silent restSilent)
  | @upTo before behind listener complaint split beforeSilent complains =>
      have split : first :: rest = (first :: before) ++ listener :: behind := by
        rw [split, List.cons_append]
      exact .upTo split (silent_cons silent beforeSilent) complains

end Telling

namespace Eval

/-- A single call leaves its session behind, and fails if the listener complains. -/
theorem callListener_eq (telling : Telling σ) (listener : Listener σ) :
    callListener telling.notice listener telling.session =
      match telling.complaint? listener with
      | none => .ok () (telling.after listener).session
      | some complaint =>
          .error (telling.failure complaint) (telling.after listener).session := by
  change react (listener.handle telling.notice telling.session) _ _ telling.session = _
  simp only [react, Telling.complaint?]
  cases (listener.handle telling.notice telling.session).complaint <;> rfl

/-- A listener is called before those behind it, which are told what it makes of the notice. -/
theorem tell_cons (telling : Telling σ) (first : Listener σ) (rest : List (Listener σ)) :
    tell telling.notice (first :: rest) telling.session =
      (callListener telling.notice first >>= fun _ => tell (telling.after first).notice rest)
        telling.session :=
  rfl

theorem calls_tell (telling : Telling σ) (listeners : List (Listener σ)) :
    telling.Calls listeners ((do let _ ← tell telling.notice listeners) telling.session) := by
  induction listeners generalizing telling with
  | nil => exact .all telling.silent_nil
  | cons first rest ih =>
      have called := callListener_eq telling first
      rw [bind_of_eq (tell_cons telling first rest), bind_assoc]
      cases complains : telling.complaint? first with
      | none =>
          rw [complains] at called
          rw [bind_of_ok called]
          exact .cons complains (ih _)
      | some complaint =>
          have split : first :: rest = [] ++ first :: rest := rfl
          rw [complains] at called
          rw [bind_of_error called]
          exact .upTo split telling.silent_nil complains

end Eval

namespace Hooks

theorem listeners_afterAll (registrations : List (Registration σ)) (event : Event) :
    (afterAll registrations).listeners event =
      (Registration.listenersOf event registrations).mergeSort Listener.precedes :=
  (stableOrder_afterAll registrations event).unique (.mergeSort _)

theorem listeners_after_of_not_isFor (hooks : Hooks σ) {registration : Registration σ}
    {event : Event} (other : ¬registration.IsFor event) :
    (hooks.after registration).listeners event = hooks.listeners event := by
  rw [listeners_after, Registration.listenerOf?_of_not_isFor other]

/--
Whatever attempts to register there were, the listeners of an event are its registered ones, sorted
once and stably by descending priority. They are called in this order up to the first one that
complains. An attempt that is rejected leaves the hooks as they are, and one that is not for the
event leaves its listeners as they are.
-/
theorem listeners_in_stable_order (registrations : List (Registration σ)) (event : Event) :
    let hooks := afterAll registrations
    let registered := Registration.listenersOf event registrations
    let ordered := registered.mergeSort Listener.precedes
    StableOrder registered ordered ∧
    hooks.listenerNames event.name = ordered.map (·.name) ∧
    (∀ (settings : Settings σ) (telling : Telling σ),
      settings.hooks = hooks → telling.notice.event = event →
        telling.Calls ordered (Eval.emit settings telling.notice telling.session)) ∧
    (∀ (hooks : Hooks σ) (registration : Registration σ),
      ((∃ error, hooks.register registration = .error error) ↔ ¬registration.Acceptable) ∧
      (¬registration.Acceptable → hooks.after registration = hooks)) ∧
    (∀ (hooks : Hooks σ) (registration : Registration σ), ¬registration.IsFor event →
      (hooks.after registration).listeners event = hooks.listeners event ∧
      (hooks.after registration).listenerNames event.name = hooks.listenerNames event.name) := by
  intro hooks registered ordered
  have listeners : hooks.listeners event = ordered := listeners_afterAll registrations event
  refine ⟨.mergeSort registered, ?_, ?_, ?_, ?_⟩
  · rw [listenerNames_name, listeners]
  · intro settings telling sameHooks sameEvent
    rw [Eval.emit, sameHooks, sameEvent, listeners]
    exact Eval.calls_tell telling ordered
  · intro hooks registration
    exact ⟨hooks.register_eq_error_iff registration, hooks.after_of_not_acceptable⟩
  · intro hooks registration other
    have unchanged := hooks.listeners_after_of_not_isFor other
    exact ⟨unchanged, by rw [listenerNames_name, listenerNames_name, unchanged]⟩

/-- Of two listeners with one priority, the one that came first is called first. -/
example :
    let listener (name : String) (priority : Int) : Listener Unit :=
      { name, priority
        functionName := "on_start"
        handle := fun _ session =>
          { workspace := session.toWorkspace, observer := session.observer } }
    (afterAll [.listen "parse_start" (listener "late" (-1)), .listen "parse_start" (listener "" 5),
      .listen "no_event" (listener "lost" 9), .listen "parse_end" (listener "other" 9),
      .listen "parse_start" (listener "b" 5)]).listenerNames "parse_start" =
        ["on_start", "b", "late"] := by
  cbv

end Hooks

end BlockCalc
