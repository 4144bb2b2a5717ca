import BlockCalc.Proofs.Resolution
import BlockCalc.Proofs.Snapshot

/-!
# Bindings over a history of commands

A scope is declared in, assigned to, entered and left by commands that may come in any order and may
fail. Of all bindings of a name, looking it up, showing it and assigning to it are about the same
one: the binding in the innermost frame that has the name. What was outside a block when it was
entered is still there when it is left, and has changed only where a command went past the block.

Frames are counted from the outermost one, so that they keep their numbers when blocks are entered
and left.
-/

namespace BlockCalc.Scope

/-- What can be done to a scope. -/
inductive Command where
  | declare (name : String)
  | assign (name : String) (value : Value)
  | update (name : String) (change : Value → Except Cause Value)
  | enter
  | exit
  | unwind
  | clear

/-- The scope that a command leads to, unless it fails. -/
def obey (scope : Scope) : Command → Except Cause Scope
  | .declare name => .ok (scope.declare name)
  | .assign name value => scope.assign name value
  | .update name change => (scope.update name change).map (·.2)
  | .enter => .ok scope.enter
  | .exit => scope.exit.map (·.2)
  | .unwind => .ok scope.unwind
  | .clear => .ok .empty

/-- The scope after a command; it stays as it is if the command fails. -/
def after (scope : Scope) (command : Command) : Scope :=
  match scope.obey command with
  | .ok changed => changed
  | .error _ => scope

/-- The scope after commands one after the other. -/
def afterAll (scope : Scope) (commands : List Command) : Scope :=
  commands.foldl after scope

/-- The command is to give a name another value. -/
def Command.Sets (name : String) : Command → Prop
  | .assign other _ => other = name
  | .update other _ => other = name
  | _ => False

/-- The binding of a name in the frame of a number. -/
def binding? (scope : Scope) (index : Nat) (name : String) : Option Value :=
  scope.outermostFirst[index]?.bind (·.get? name)

/-- The frame of a number has a name, and no frame inside it has. -/
structure Denotes (scope : Scope) (name : String) (index : Nat) : Prop where
  bound : (scope.binding? index name).isSome = true
  hidden : ∀ inner, index < inner → scope.binding? inner name = none

/-- The frames and their names stay, and so do all bindings but the one that a name denotes. -/
structure Rebinds (scope : Scope) (name : String) (value : Value) (changed : Scope) : Prop where
  names_eq : changed.names = scope.names
  binding : ∃ index, scope.Denotes name index ∧ scope.read? name = scope.binding? index name ∧
    ∀ other key, changed.binding? other key =
      if other = index ∧ key = name then some value else scope.binding? other key
  read_eq : changed.read name = .ok value

/-- The frame of a number keeps its names, and only such bindings in it change as may. -/
structure KeepsFrame (scope : Scope) (index : Nat) (mayChange : String → Prop) (changed : Scope) :
    Prop where
  names_eq : changed.outermostFirst[index]?.map Table.names =
    scope.outermostFirst[index]?.map Table.names
  mayChange : ∀ name, changed.binding? index name ≠ scope.binding? index name → mayChange name

namespace KeepsFrame

variable {scope middle changed : Scope} {index : Nat} {mayChange mayChangeThen : String → Prop}

theorem of_eq (same : changed.outermostFirst[index]? = scope.outermostFirst[index]?) :
    scope.KeepsFrame index mayChange changed where
  names_eq := by rw [same]
  mayChange name differs := absurd (by rw [binding?, binding?, same]) differs

theorem mono (keeps : scope.KeepsFrame index mayChange changed)
    (weakens : ∀ name, mayChange name → mayChangeThen name) :
    scope.KeepsFrame index mayChangeThen changed :=
  ⟨keeps.names_eq, fun name differs => weakens name (keeps.mayChange name differs)⟩

/-- A binding that changes in two steps changes in one of them. -/
theorem trans (first : scope.KeepsFrame index mayChange middle)
    (second : middle.KeepsFrame index mayChangeThen changed) :
    scope.KeepsFrame index (fun name => mayChange name ∨ mayChangeThen name) changed := by
  refine ⟨second.names_eq.trans first.names_eq, ?_⟩
  intro name differs
  by_cases now : changed.binding? index name = middle.binding? index name
  · exact Or.inl (first.mayChange name (now ▸ differs))
  · exact Or.inr (second.mayChange name now)

end KeepsFrame

section Commands

variable {scope changed : Scope} {command : Command}

theorem after_of_ok (obeyed : scope.obey command = .ok changed) :
    scope.after command = changed := by
  rw [after, obeyed]

theorem after_of_error {cause : Cause} (failed : scope.obey command = .error cause) :
    scope.after command = scope := by
  rw [after, failed]

theorem afterAll_append_singleton (commands : List Command) :
    scope.afterAll (commands ++ [command]) = (scope.afterAll commands).after command := by
  rw [afterAll, List.foldl_append, List.foldl_cons, List.foldl_nil, ← afterAll]

end Commands

section Map

variable {ε α β : Type} {transform : α → β} {outcome : Except ε α}

theorem exists_of_map_ok {result : β} (mapped : outcome.map transform = .ok result) :
    ∃ before, outcome = .ok before ∧ transform before = result := by
  cases outcome with
  | ok before => exact ⟨before, rfl, Except.ok.inj mapped⟩
  | error raised => cases mapped

theorem map_fails_iff :
    (∃ raised, outcome.map transform = .error raised) ↔ ∃ raised, outcome = .error raised := by
  cases outcome <;> simp [Except.map]

end Map

section Rebinds

variable {scope changed : Scope} {name : String} {value : Value}

/-- Assigning changes the innermost frame that has the name. -/
theorem exists_split_of_assignFirst? {frames changed : List Frame}
    (assigned : assignFirst? name value frames = some changed) :
    ∃ inner frame outer, frames = inner ++ frame :: outer ∧
      changed = inner ++ frame.insert name value :: outer ∧ frame.contains name = true ∧
      ∀ other ∈ inner, other.get? name = none := by
  induction frames generalizing changed with
  | nil => cases assigned
  | cons first rest ih =>
      simp only [assignFirst?] at assigned
      split at assigned
      · rename_i present
        cases assigned
        exact ⟨[], first, rest, rfl, rfl, present, by simp⟩
      · rename_i absent
        rcases Option.map_eq_some_iff.mp assigned with ⟨changedRest, restAssigned, rfl⟩
        rcases ih restAssigned with ⟨inner, frame, outer, rfl, rfl, present, missing⟩
        have firstMissing : first.get? name = none := by simpa [Table.contains] using absent
        exact ⟨first :: inner, frame, outer, rfl, rfl, present,
          List.forall_mem_cons.mpr ⟨firstMissing, missing⟩⟩

theorem rebinds_of_assign (assigned : scope.assign name value = .ok changed) :
    scope.Rebinds name value changed := by
  rcases exists_split_of_assignFirst? (assignFirst?_of_assign assigned) with
    ⟨inner, frame, outer, frames, changedFrames, present, missing⟩
  rcases Option.isSome_iff_exists.mp present with ⟨old, isOld⟩
  have outermost : scope.outermostFirst = outer.reverse ++ frame :: inner.reverse := by
    simp [outermostFirst_eq_reverse, frames]
  have changedOutermost : changed.outermostFirst =
      scope.outermostFirst.set outer.length (frame.insert name value) := by
    rw [outermost, changed.outermostFirst_eq_reverse, changedFrames]
    simp
  have atHome : scope.outermostFirst[outer.length]? = some frame := by simp [outermost]
  have found : scope.read? name = scope.binding? outer.length name := by
    have noInner : inner.findSome? (·.get? name) = none := List.findSome?_eq_none_iff.mpr missing
    simp [read?, frames, List.findSome?_append, noInner, binding?, atHome, isOld]
  refine ⟨names_of_assign assigned, ⟨outer.length, ⟨?_, ?_⟩, found, ?_⟩, ?_⟩
  · simp [binding?, atHome, isOld]
  · intro index inside
    rcases Nat.exists_eq_add_of_lt inside with ⟨further, rfl⟩
    rw [binding?, outermost, List.getElem?_append_right (by simp; omega), Option.bind_eq_none_iff]
    intro other isInner
    have member : other ∈ inner.reverse := by
      apply List.mem_of_getElem? (i := further)
      simpa [Nat.add_sub_cancel_left, Nat.add_assoc] using isInner
    exact missing other (List.mem_reverse.mp member)
  · intro other key
    by_cases home : other = outer.length
    · subst home
      have within := (List.getElem?_eq_some_iff.mp atHome).1
      rw [binding?, binding?, changedOutermost, List.getElem?_set_self within, atHome]
      simp [Table.get?_insert]
    · simp [binding?, changedOutermost, home, Ne.symm home]
  · rw [read, read?_of_assign assigned]

theorem rebinds_of_update {change : Value → Except Cause Value}
    (updated : scope.update name change = .ok (value, changed)) :
    scope.Rebinds name value changed := by
  rcases update_eq_ok_iff.mp updated with ⟨_, _, _, assigned⟩
  exact rebinds_of_assign assigned

theorem Rebinds.keepsFrame (rebinds : scope.Rebinds name value changed) (index : Nat) :
    scope.KeepsFrame index (fun key => key = name ∧ scope.Denotes key index) changed := by
  constructor
  · have sameNames := congrArg List.reverse rebinds.names_eq
    simp only [names, ← List.map_reverse, ← outermostFirst_eq_reverse] at sameNames
    rw [← List.getElem?_map, ← List.getElem?_map, sameNames]
  · intro key differs
    rcases rebinds.binding with ⟨home, denotes, _, changes⟩
    rw [changes] at differs
    split at differs
    · rename_i here
      rcases here with ⟨rfl, rfl⟩
      exact ⟨rfl, denotes⟩
    · exact absurd rfl differs

end Rebinds

section Blocks

variable {scope changed : Scope} {command : Command} {index : Nat}

theorem outermostFirst_of_exit {outer : Scope} {frame : Frame}
    (left : scope.exit = .ok (frame, outer)) :
    scope.outermostFirst = outer.outermostFirst ++ [frame] := by
  rw [outermostFirst_eq_reverse, innermostFirst_of_exit left, List.reverse_cons,
    ← outermostFirst_eq_reverse]

/-- A declaration is made in the innermost frame. -/
theorem getElem?_declare (outside : index < scope.depth) (name : String) :
    (scope.declare name).outermostFirst[index]? = scope.outermostFirst[index]? := by
  have length : scope.innermostFirst.tail.reverse.length = scope.depth := by
    simp [innermostFirst, depth]
  rw [outermostFirst_eq_reverse, outermostFirst_eq_reverse, innermostFirst_declare,
    innermostFirst_eq, List.reverse_cons, List.reverse_cons, List.tail_cons,
    List.getElem?_append_left (length ▸ outside), List.getElem?_append_left (length ▸ outside)]

theorem getElem?_enter (outside : index ≤ scope.depth) :
    scope.enter.outermostFirst[index]? = scope.outermostFirst[index]? := by
  have within : index < scope.outermostFirst.length := by
    simpa [outermostFirst, depth] using Nat.lt_succ_of_le outside
  have entered : scope.enter.outermostFirst = scope.outermostFirst ++ [.empty] := by
    simp [outermostFirst, enter]
  rw [entered, List.getElem?_append_left within]

theorem getElem?_exit {result : Frame × Scope} (outside : index < scope.depth)
    (left : scope.exit = .ok result) :
    result.2.outermostFirst[index]? = scope.outermostFirst[index]? := by
  have split := outermostFirst_of_exit left
  have within : index < result.2.outermostFirst.length := by
    have length := congrArg List.length split
    simp [outermostFirst, depth] at length outside ⊢
    omega
  rw [split, List.getElem?_append_left within]

/-- A frame outside the innermost one stays, and so do its bindings unless one of them is set. -/
theorem keepsFrame_of_obey (obeyed : scope.obey command = .ok changed)
    (outside : index < scope.depth) (stays : index < changed.depth) :
    scope.KeepsFrame index (fun name => command.Sets name ∧ scope.Denotes name index) changed := by
  have ofRebinds {name : String} {value : Value} (sets : command.Sets name)
      (rebinds : scope.Rebinds name value changed) :
      scope.KeepsFrame index (fun key => command.Sets key ∧ scope.Denotes key index) changed :=
    (rebinds.keepsFrame index).mono fun key ⟨same, denotes⟩ => ⟨same ▸ sets, denotes⟩
  cases command with
  | declare name =>
      cases obeyed
      exact .of_eq (getElem?_declare outside name)
  | assign name value => exact ofRebinds rfl (rebinds_of_assign obeyed)
  | update name change =>
      rcases exists_of_map_ok obeyed with ⟨⟨value, other⟩, updated, rfl⟩
      exact ofRebinds rfl (rebinds_of_update updated)
  | enter =>
      cases obeyed
      exact .of_eq (getElem?_enter (Nat.le_of_lt outside))
  | exit =>
      rcases exists_of_map_ok obeyed with ⟨result, left, rfl⟩
      exact .of_eq (getElem?_exit outside left)
  | unwind =>
      cases obeyed
      exact absurd stays (Nat.not_lt_zero index)
  | clear =>
      cases obeyed
      exact absurd stays (Nat.not_lt_zero index)

theorem keepsFrame_after (outside : index < scope.depth)
    (stays : index < (scope.after command).depth) :
    scope.KeepsFrame index (fun name => command.Sets name ∧ scope.Denotes name index)
      (scope.after command) := by
  cases obeyed : scope.obey command with
  | ok changed =>
      rw [after_of_ok obeyed] at stays ⊢
      exact keepsFrame_of_obey obeyed outside stays
  | error cause =>
      rw [after_of_error obeyed]
      exact .of_eq rfl

/-- While a block is open, the frames outside it keep their names, and a binding in one of them
changes only by a command that sets its name when no frame further in has that name. -/
theorem keepsFrame_afterAll (commands : List Command)
    (opened : ∀ earlier, earlier <+: commands → scope.depth < (scope.enter.afterAll earlier).depth)
    (outside : index ≤ scope.depth) :
    scope.KeepsFrame index (fun name => ∃ earlier command later,
      commands = earlier ++ command :: later ∧ command.Sets name ∧
        (scope.enter.afterAll earlier).Denotes name index) (scope.enter.afterAll commands) := by
  induction commands using List.reverseRecOn with
  | nil => exact .of_eq (getElem?_enter outside)
  | append_singleton commands command ih =>
      have openedBefore := opened commands (List.prefix_append commands [command])
      have openedAfter := opened (commands ++ [command]) List.prefix_rfl
      have before := ih fun earlier isEarlier =>
        opened earlier (isEarlier.trans (List.prefix_append commands [command]))
      rw [afterAll_append_singleton] at openedAfter ⊢
      have now := keepsFrame_after (Nat.lt_of_le_of_lt outside openedBefore)
        (Nat.lt_of_le_of_lt outside openedAfter)
      apply (before.trans now).mono
      rintro name (⟨earlier, setter, later, rfl, sets, denotes⟩ | ⟨sets, denotes⟩)
      · exact ⟨earlier, setter, later ++ [command], by simp, sets, denotes⟩
      · exact ⟨commands, command, [], rfl, sets, denotes⟩

/-- What was outside a block when it was entered is there when it is left. -/
theorem restored_of_exit {commands : List Command} {frame : Frame} {result : Scope}
    (opened : ∀ earlier, earlier <+: commands → scope.depth < (scope.enter.afterAll earlier).depth)
    (left : (scope.enter.afterAll commands).exit = .ok (frame, result))
    (closed : result.depth = scope.depth) :
    result.names = scope.names ∧
      ∀ index name, result.binding? index name ≠ scope.binding? index name →
        ∃ earlier command later, commands = earlier ++ command :: later ∧ command.Sets name ∧
          (scope.enter.afterAll earlier).Denotes name index := by
  have stays {index : Nat} (outside : index ≤ scope.depth) :
      result.outermostFirst[index]? =
        (scope.enter.afterAll commands).outermostFirst[index]? :=
    getElem?_exit (Nat.lt_of_le_of_lt outside (opened commands List.prefix_rfl)) left
  have beyond {some : Scope} {index : Nat} (deep : some.depth < index) :
      some.outermostFirst[index]? = none :=
    List.getElem?_eq_none (by rw [length_outermostFirst]; omega)
  constructor
  · apply List.reverse_injective
    simp only [names, ← List.map_reverse, ← outermostFirst_eq_reverse]
    apply List.ext_getElem?
    intro index
    simp only [List.getElem?_map]
    rcases Nat.lt_or_ge scope.depth index with deep | outside
    · rw [beyond deep, beyond (closed ▸ deep)]
    · rw [stays outside, (keepsFrame_afterAll commands opened outside).names_eq]
  · intro index name differs
    rcases Nat.lt_or_ge scope.depth index with deep | outside
    · exact absurd (by rw [binding?, binding?, beyond deep, beyond (closed ▸ deep)]) differs
    · apply (keepsFrame_afterAll commands opened outside).mayChange name
      rwa [binding?, ← stays outside]

end Blocks

/-- Looking a name up, asking for it and showing it agree. -/
structure Coherent (scope : Scope) : Prop where
  has_iff_read : ∀ name, scope.has name = true ↔ ∃ value, scope.read name = .ok value
  has_iff_shown : ∀ name, scope.has name = true ↔ name ∈ scope.snapshot.names
  nodup : scope.snapshot.names.Nodup
  names_eq : scope.snapshot.names = (scope.outermostFirst.flatMap Table.names).eraseDups
  shown : ∀ name value, scope.read name = .ok value →
    scope.snapshot.get? name =
      some (if value.render.length ≤ 80 then value.render
        else String.ofList (value.render.toList.take 77) ++ "...")

theorem read_eq_ok_iff {scope : Scope} {name : String} {value : Value} :
    scope.read name = .ok value ↔ scope.read? name = some value := by
  rw [read]
  cases scope.read? name <;> simp

theorem has_iff_exists_read (scope : Scope) (name : String) :
    scope.has name = true ↔ ∃ value, scope.read name = .ok value := by
  simp only [has_eq_isSome_read?, Option.isSome_iff_exists, read_eq_ok_iff]

theorem coherent (scope : Scope) : scope.Coherent where
  has_iff_read := scope.has_iff_exists_read
  has_iff_shown name := by
    rw [has_eq_isSome_read?, ← get?_visible, ← Table.contains, Table.contains_iff_mem_names,
      snapshot, Table.names_map]
  nodup := scope.snapshot.nodup
  names_eq := scope.names_snapshot
  shown name value reads := by
    rw [get?_snapshot, read_eq_ok_iff.mp reads, Option.map_some, clip]
    rfl

/-- The command cannot be obeyed: there is no such name or no block, or the change fails. -/
def Command.Fails (scope : Scope) : Command → Prop
  | .assign name _ => scope.has name = false
  | .update name change =>
      ∀ current, scope.read name = .ok current → ∃ cause, change current = .error cause
  | .exit => scope.depth = 0
  | _ => False

section Failing

variable {scope : Scope}

theorem has_of_assign {changed : Scope} {name : String} {value : Value}
    (assigned : scope.assign name value = .ok changed) : scope.has name = true := by
  rcases (rebinds_of_assign assigned).binding with ⟨index, denotes, reads, _⟩
  rw [has_eq_isSome_read?, reads]
  exact denotes.bound

theorem fails_assign_iff (name : String) (value : Value) :
    (∃ cause, scope.assign name value = .error cause) ↔ scope.has name = false := by
  cases assigned : scope.assign name value with
  | ok changed => simp [has_of_assign assigned]
  | error cause =>
      have absent : scope.has name = false := by
        by_contra present
        rcases exists_assign_of_has (Bool.of_not_eq_false present) value with ⟨changed, same⟩
        rw [assigned] at same
        cases same
      simp [absent]

theorem fails_update_iff (name : String) (change : Value → Except Cause Value) :
    (∃ cause, scope.update name change = .error cause) ↔
      ∀ current, scope.read name = .ok current → ∃ cause, change current = .error cause := by
  cases reads : scope.read name with
  | error cause =>
      have stuck : scope.update name change = .error cause := by
        simp only [update, reads, bind, Except.bind]
      simp [stuck]
  | ok current =>
      have bound := (has_iff_exists_read scope name).mpr ⟨current, reads⟩
      cases changes : change current with
      | error cause =>
          have stuck : scope.update name change = .error cause := by
            simp only [update, reads, changes, bind, Except.bind]
          simp [stuck, changes]
      | ok value =>
          rcases exists_assign_of_has bound value with ⟨changed, assigned⟩
          have updated := update_eq_ok_iff.mpr ⟨current, reads, changes, assigned⟩
          simp [updated, changes]

theorem fails_exit_iff : (∃ cause, scope.exit = .error cause) ↔ scope.depth = 0 := by
  rw [depth, List.length_eq_zero_iff, exit]
  cases scope.blocks <;> simp

theorem obey_fails_iff (command : Command) :
    (∃ cause, scope.obey command = .error cause) ↔ command.Fails scope := by
  cases command with
  | assign name value => exact fails_assign_iff name value
  | update name change =>
      simp only [obey, map_fails_iff]
      exact fails_update_iff name change
  | exit =>
      simp only [obey, map_fails_iff]
      exact fails_exit_iff
  | _ => simp [obey, Command.Fails]

theorem after_of_fails {command : Command} (fails : command.Fails scope) :
    scope.after command = scope := by
  rcases (obey_fails_iff command).mpr fails with ⟨cause, failed⟩
  exact after_of_error failed

end Failing

section Session

variable {σ : Type}

/-- An assignment that fails leaves the session as it was. -/
theorem eq_of_store_error {operator : BinaryOp} {name : String} {right : Value}
    {session stopped : Session σ} {failure : Failure}
    (failed : Eval.store operator name right session = .error failure stopped) :
    stopped = session := by
  rw [Eval.store_eq] at failed
  change (Eval.ofExcept (session.scope.stored operator name right) >>= _) session = _ at failed
  cases stored : session.scope.stored operator name right with
  | ok result => rw [stored] at failed; cases failed
  | error cause => rw [stored] at failed; cases failed; rfl

/-- Leaving the top level fails and leaves the session as it was. -/
theorem exitBlock_of_topLevel (settings : Settings σ) {session : Session σ}
    (topLevel : session.scope.depth = 0) (location : Location) :
    ∃ failure, Eval.exitBlock settings location session = .error failure session := by
  rcases fails_exit_iff.mpr topLevel with ⟨cause, stuck⟩
  refine ⟨{ cause }, ?_⟩
  change (Eval.ofExcept session.scope.exit >>= _) session = _
  rw [stuck]
  rfl

end Session

/-- In every scope, the commands that succeed act on the binding that a name denotes, the others
change nothing, and a block that is left has changed only what was set past it. -/
theorem commands_act_on_visible_bindings {σ : Type} (settings : Settings σ) (scope : Scope) :
    scope.Coherent ∧
      (∀ name value changed, scope.assign name value = .ok changed →
        scope.Rebinds name value changed) ∧
      (∀ name change value changed, scope.update name change = .ok (value, changed) →
        (∃ current, scope.read name = .ok current ∧ change current = .ok value) ∧
          scope.Rebinds name value changed) ∧
      (∀ command, (∃ cause, scope.obey command = .error cause) ↔ command.Fails scope) ∧
      (∀ command, command.Fails scope → scope.after command = scope) ∧
      (∀ (session : Session σ) operator name right failure stopped, session.scope = scope →
        Eval.store operator name right session = .error failure stopped → stopped = session) ∧
      (∀ (session : Session σ) location, session.scope = scope → scope.depth = 0 →
        ∃ failure, Eval.exitBlock settings location session = .error failure session) ∧
      ∀ commands frame result,
        (∀ earlier, earlier <+: commands →
          scope.depth < (scope.enter.afterAll earlier).depth) →
        (scope.enter.afterAll commands).exit = .ok (frame, result) →
        result.depth = scope.depth →
        result.names = scope.names ∧
          ∀ index name, result.binding? index name ≠ scope.binding? index name →
            ∃ earlier command later, commands = earlier ++ command :: later ∧
              command.Sets name ∧ (scope.enter.afterAll earlier).Denotes name index := by
  refine ⟨scope.coherent, fun _ _ _ => rebinds_of_assign, ?_, obey_fails_iff,
    fun _ => after_of_fails, fun _ _ _ _ _ _ _ => eq_of_store_error, ?_,
    fun _ _ _ => restored_of_exit⟩
  · intro name change value changed updated
    rcases update_eq_ok_iff.mp updated with ⟨current, reads, changes, assigned⟩
    exact ⟨⟨current, reads, changes⟩, rebinds_of_assign assigned⟩
  · rintro session location rfl topLevel
    exact exitBlock_of_topLevel settings topLevel location

theorem commands_act_on_visible_bindings_past_block :
    let scope := empty.afterAll [.declare "x", .assign "x" (.integer 1)]
    let commands := [.assign "x" (.integer 2), .declare "x", .assign "x" (.integer 3)]
    ∃ frame result, (scope.enter.afterAll commands).exit = .ok (frame, result) ∧
      result.names = scope.names ∧ result.binding? 0 "x" = some (.integer 2) ∧
      ∃ earlier command later, commands = earlier ++ command :: later ∧
        command.Sets "x" ∧ (scope.enter.afterAll earlier).Denotes "x" 0 := by
  intro scope commands
  have opened : ∀ earlier, earlier <+: commands →
      scope.depth < (scope.enter.afterAll earlier).depth := by
    intro earlier isEarlier
    have cut := List.prefix_iff_eq_take.mp isEarlier
    have short : earlier.length < 4 := Nat.lt_succ_of_le isEarlier.length_le
    rw [cut]
    generalize earlier.length = count at short
    revert count
    decide
  rcases commands_act_on_visible_bindings ({} : Settings Unit) scope with
    ⟨_, _, _, _, _, _, _, restored⟩
  rcases restored commands _ _ opened rfl (by decide) with ⟨names, changes⟩
  exact ⟨_, _, rfl, names, by decide, changes 0 "x" (by decide)⟩

end BlockCalc.Scope
