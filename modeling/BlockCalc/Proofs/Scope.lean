import BlockCalc.Scope

/-!
# Frames and blocks of a scope

An assignment changes the innermost frame that binds its name. Declarations and assignments change
bindings but open and leave no block. Only entering a block and leaving one change the depth, by one
each.
-/

namespace BlockCalc

theorem bind_eq_ok_iff {ε α β : Type} {outcome : Except ε α} {next : α → Except ε β}
    {result : β} :
    (outcome >>= next) = .ok result ↔
      ∃ middle, outcome = .ok middle ∧ next middle = .ok result := by
  cases outcome <;> simp [bind, Except.bind]

theorem length_of_assignFirst? {name : String} {value : Value} {frames changed : List Frame}
    (assigned : assignFirst? name value frames = some changed) :
    changed.length = frames.length := by
  induction frames generalizing changed with
  | nil => simp [assignFirst?] at assigned
  | cons frame rest ih =>
      simp only [assignFirst?] at assigned
      split at assigned
      · simp only [Option.some.injEq] at assigned
        simp [← assigned]
      · simp only [Option.map_eq_some_iff] at assigned
        rcases assigned with ⟨changedRest, restAssigned, rfl⟩
        simp [ih restAssigned]

theorem assignFirst?_append (name : String) (value : Value) (inner outer : List Frame) :
    assignFirst? name value (inner ++ outer) =
      match assignFirst? name value inner with
      | some changed => some (changed ++ outer)
      | none => (assignFirst? name value outer).map (inner ++ ·) := by
  induction inner with
  | nil => simp [assignFirst?]
  | cons frame rest ih =>
      simp only [List.cons_append, assignFirst?, ih]
      split
      · rfl
      · cases assignFirst? name value rest <;> simp [Function.comp_def]

namespace Scope

@[simp]
theorem depth_withInnermost (scope : Scope) (frame : Frame) :
    (scope.withInnermost frame).depth = scope.depth := by
  simp only [withInnermost, depth]
  split <;> simp_all

@[simp]
theorem depth_declare (scope : Scope) (name : String) :
    (scope.declare name).depth = scope.depth := by
  simp [declare]

@[simp]
theorem depth_enter (scope : Scope) : scope.enter.depth = scope.depth + 1 := by
  simp [enter, depth]

theorem depth_of_assign {scope changed : Scope} {name : String} {value : Value}
    (assigned : scope.assign name value = .ok changed) : changed.depth = scope.depth := by
  simp only [assign] at assigned
  split at assigned
  · rename_i blocks found
    cases assigned
    exact length_of_assignFirst? found
  · split at assigned <;> cases assigned
    rfl

/-- Assigning searches the frames from the innermost one outward. -/
theorem assignFirst?_of_assign {scope changed : Scope} {name : String} {value : Value}
    (assigned : scope.assign name value = .ok changed) :
    assignFirst? name value scope.innermostFirst = some changed.innermostFirst := by
  rw [innermostFirst, assignFirst?_append]
  cases found : assignFirst? name value scope.blocks with
  | some blocks =>
      simp only [assign, found] at assigned
      cases assigned
      rfl
  | none =>
      simp only [assign, found] at assigned
      split at assigned
      · rename_i present
        cases assigned
        simp [assignFirst?, present, innermostFirst]
      · cases assigned

theorem has_eq_isSome_read? (scope : Scope) (name : String) :
    scope.has name = (scope.read? name).isSome := by
  rw [Bool.eq_iff_iff, read?, List.findSome?_isSome_iff]
  simp only [has, List.any_eq_true, Table.contains]

theorem exists_read?_of_has {scope : Scope} {name : String} (visible : scope.has name = true) :
    ∃ value, scope.read? name = some value := by
  rwa [has_eq_isSome_read?, Option.isSome_iff_exists] at visible

theorem update_eq_ok_iff {scope changed : Scope} {name : String} {value : Value}
    {change : Value → Except Cause Value} :
    scope.update name change = .ok (value, changed) ↔
      ∃ current, scope.read name = .ok current ∧ change current = .ok value ∧
        scope.assign name value = .ok changed := by
  simp only [update, bind_eq_ok_iff, pure, Except.pure, Except.ok.injEq, Prod.mk.injEq]
  constructor
  · rintro ⟨current, reads, next, changes, other, assigns, rfl, rfl⟩
    exact ⟨current, reads, changes, assigns⟩
  · rintro ⟨current, reads, changes, assigns⟩
    exact ⟨current, reads, value, changes, changed, assigns, rfl, rfl⟩

theorem exit_eq_error {scope : Scope} {cause : Cause} (stuck : scope.exit = .error cause) :
    cause = .unhandled .outermostExit := by
  simp only [exit] at stuck
  split at stuck <;> cases stuck
  rfl

/-- A scope with an open block can be left, which closes that block. -/
theorem exists_exit_of_depth_pos {scope : Scope} (open_ : 0 < scope.depth) :
    ∃ frame outer, scope.exit = .ok (frame, outer) ∧ outer.depth + 1 = scope.depth := by
  simp only [depth] at open_
  simp only [exit, depth]
  split
  · simp_all
  · rename_i frame outer blocks
    exact ⟨frame, _, rfl, by simp [blocks]⟩

/-- Outside all blocks there is nothing to leave. -/
theorem unwind_of_topLevel {scope : Scope} (topLevel : scope.blocks = []) :
    scope.unwind = scope := by
  cases scope
  cases topLevel
  rfl

end Scope

end BlockCalc
