import BlockCalc.Proofs.Recording
import BlockCalc.Proofs.Scope

/-!
# What becomes of a scope

While a part of a program is read, names are declared in the innermost frame, variables are
assigned, and blocks are entered and left again. `Scope.Turns` says that a scope turns into another
one in this way, and `Scope.Breaks` that it does up to the midst of some block. From this alone it
follows which frames and names there are, and which bindings of a name can have changed: those in
front of the first frame that binds it and in that frame, if the name was used at all.
-/

namespace BlockCalc

/-- The names of the frames after a declaration in the innermost one. -/
def declareIn (names : List (List String)) (name : String) : List (List String) :=
  match names with
  | [] => []
  | innermost :: outer => (if name ∈ innermost then innermost else innermost ++ [name]) :: outer

/-- The bindings of a name after a declaration of it. -/
def declareBinding : List (Option Value) → List (Option Value)
  | [] => []
  | innermost :: outer => some (innermost.getD .uninitialized) :: outer

/-- The bindings of a name after an assignment to it. -/
def assignBinding (value : Value) : List (Option Value) → List (Option Value)
  | [] => []
  | some _ :: outer => some value :: outer
  | none :: outer => none :: assignBinding value outer

theorem exists_foldl_declareIn (declared innermost : List String) (outer : List (List String)) :
    ∃ added, declared.foldl declareIn (innermost :: outer) = (innermost ++ added) :: outer := by
  induction declared generalizing innermost with
  | nil => exact ⟨[], by simp⟩
  | cons name rest ih =>
      simp only [List.foldl_cons, declareIn]
      split
      · exact ih innermost
      · rcases ih (innermost ++ [name]) with ⟨added, same⟩
        exact ⟨name :: added, by simpa using same⟩

/-- An assignment finds the first binding. -/
theorem exists_assignBinding (value old : Value) (inner outer : List (Option Value)) :
    ∃ changed new, assignBinding value (inner ++ some old :: outer) =
      changed ++ some new :: outer ∧ changed.length = inner.length := by
  induction inner with
  | nil => exact ⟨[], value, rfl, rfl⟩
  | cons first rest ih =>
      cases first with
      | some found => exact ⟨some value :: rest, old, rfl, rfl⟩
      | none =>
          rcases ih with ⟨changed, new, same, sameLength⟩
          exact ⟨none :: changed, new, by simp [assignBinding, same], by simp [sameLength]⟩

theorem exists_declareBinding (old : Value) (inner outer : List (Option Value)) :
    ∃ changed new, declareBinding (inner ++ some old :: outer) =
      changed ++ some new :: outer ∧ changed.length = inner.length := by
  cases inner with
  | nil => exact ⟨[], old, rfl, rfl⟩
  | cons first rest => exact ⟨some (first.getD .uninitialized) :: rest, old, rfl, rfl⟩

namespace Scope

/-- The names of the frames, innermost frame first. -/
def names (scope : Scope) : List (List String) :=
  scope.innermostFirst.map Table.names

/-- The bindings of a name in the frames, innermost frame first. -/
def bindings (scope : Scope) (name : String) : List (Option Value) :=
  scope.innermostFirst.map (·.get? name)

theorem length_names (scope : Scope) : scope.names.length = scope.depth + 1 := by
  simp [names, innermostFirst, depth]

theorem innermostFirst_eq (scope : Scope) :
    scope.innermostFirst = scope.innermost :: scope.innermostFirst.tail := by
  rcases scope with ⟨top, _ | ⟨frame, outer⟩⟩ <;> rfl

theorem innermostFirst_declare (scope : Scope) (name : String) :
    (scope.declare name).innermostFirst =
      scope.innermost.insertIfNew name .uninitialized :: scope.innermostFirst.tail := by
  rcases scope with ⟨top, _ | ⟨frame, outer⟩⟩ <;> rfl

theorem innermostFirst_of_exit {scope outer : Scope} {frame : Frame}
    (left : scope.exit = .ok (frame, outer)) :
    scope.innermostFirst = frame :: outer.innermostFirst := by
  rcases scope with ⟨top, _ | ⟨frame, blocks⟩⟩
  · cases left
  · cases left
    rfl

theorem names_declare (scope : Scope) (name : String) :
    (scope.declare name).names = declareIn scope.names name := by
  simp only [names, innermostFirst_declare]
  rw [scope.innermostFirst_eq]
  simp only [List.map_cons, List.tail_cons, declareIn, Table.insertIfNew,
    Table.contains_iff_mem_names]
  split
  · rfl
  · rename_i absent
    rw [Table.names_insert, if_neg absent]

theorem bindings_declare (scope : Scope) (name other : String) :
    (scope.declare name).bindings other =
      if other = name then declareBinding (scope.bindings other) else scope.bindings other := by
  simp only [bindings, innermostFirst_declare]
  rw [scope.innermostFirst_eq]
  simp only [List.map_cons, List.tail_cons, declareBinding, Table.get?_insertIfNew]
  by_cases same : other = name
  · subst same
    simp
  · simp [same]

theorem map_names_of_assignFirst? {name : String} {value : Value} {frames changed : List Frame}
    (assigned : assignFirst? name value frames = some changed) :
    changed.map Table.names = frames.map Table.names := by
  induction frames generalizing changed with
  | nil => cases assigned
  | cons frame rest ih =>
      simp only [assignFirst?] at assigned
      split at assigned
      · rename_i present
        cases assigned
        rw [Table.contains_iff_mem_names] at present
        simp [present]
      · rcases Option.map_eq_some_iff.mp assigned with ⟨changedRest, restAssigned, rfl⟩
        simp [ih restAssigned]

theorem map_get?_of_assignFirst? {name : String} {value : Value} {frames changed : List Frame}
    (assigned : assignFirst? name value frames = some changed) (other : String) :
    changed.map (·.get? other) =
      if other = name then assignBinding value (frames.map (·.get? other))
      else frames.map (·.get? other) := by
  induction frames generalizing changed with
  | nil => cases assigned
  | cons frame rest ih =>
      simp only [assignFirst?] at assigned
      split at assigned
      · rename_i present
        cases assigned
        by_cases same : other = name
        · subst same
          rcases Option.isSome_iff_exists.mp present with ⟨old, found⟩
          simp [found, assignBinding]
        · simp [Table.get?_insert, same]
      · rename_i absent
        rcases Option.map_eq_some_iff.mp assigned with ⟨changedRest, restAssigned, rfl⟩
        rw [List.map_cons, ih restAssigned]
        by_cases same : other = name
        · subst same
          have missing : frame.get? other = none := by simpa [Table.contains] using absent
          simp [missing, assignBinding]
        · simp [same]

section Changes

variable {scope changed outer : Scope} {name : String} {value : Value} {frame : Frame}

theorem names_of_assign (assigned : scope.assign name value = .ok changed) :
    changed.names = scope.names :=
  map_names_of_assignFirst? (assignFirst?_of_assign assigned)

theorem bindings_of_assign (assigned : scope.assign name value = .ok changed) (other : String) :
    changed.bindings other =
      if other = name then assignBinding value (scope.bindings other) else scope.bindings other :=
  map_get?_of_assignFirst? (assignFirst?_of_assign assigned) other

theorem names_enter (scope : Scope) : scope.enter.names = [] :: scope.names :=
  rfl

theorem bindings_enter (scope : Scope) (name : String) :
    scope.enter.bindings name = none :: scope.bindings name :=
  rfl

theorem names_of_exit (left : scope.exit = .ok (frame, outer)) :
    scope.names = frame.names :: outer.names := by
  rw [names, innermostFirst_of_exit left]
  rfl

theorem bindings_of_exit (left : scope.exit = .ok (frame, outer)) (name : String) :
    scope.bindings name = frame.get? name :: outer.bindings name := by
  rw [bindings, innermostFirst_of_exit left]
  rfl

theorem has_eq_any_bindings (scope : Scope) (name : String) :
    scope.has name = (scope.bindings name).any (·.isSome) := by
  simp only [has, bindings, List.any_map]
  rfl

theorem has_iff_exists_bindings :
    scope.has name = true ↔
      ∃ inner old outer, scope.bindings name = inner ++ some old :: outer := by
  rw [has_eq_any_bindings, List.any_eq_true]
  constructor
  · rintro ⟨binding, member, isSome⟩
    rcases Option.isSome_iff_exists.mp isSome with ⟨old, rfl⟩
    rcases List.append_of_mem member with ⟨inner, outer, split⟩
    exact ⟨inner, old, outer, split⟩
  · rintro ⟨inner, old, outer, split⟩
    exact ⟨some old, by simp [split], rfl⟩

theorem has_declare (scope : Scope) (name : String) : (scope.declare name).has name = true := by
  rw [has_iff_exists_bindings, bindings_declare, if_pos rfl, bindings, innermostFirst_eq]
  exact ⟨[], _, _, rfl⟩

theorem getLast?_bindings (scope : Scope) (name : String) :
    (scope.bindings name).getLast? = some (scope.top.get? name) := by
  simp [bindings, innermostFirst]

/-- Frames inside do not hide the binding at the top level. -/
theorem top_eq_of_suffix {scope other : Scope} {name : String}
    (suffix : scope.bindings name <:+ other.bindings name) :
    other.top.get? name = scope.top.get? name := by
  rcases suffix with ⟨inner, split⟩
  have last := other.getLast?_bindings name
  rw [← split, List.getLast?_append, scope.getLast?_bindings] at last
  simpa using last.symm

end Changes

/--
The scope turns into another one by declarations of some names in its innermost frame, assignments,
and blocks that are left again; all names that are used are `named`.
-/
inductive Turns (named : String → Prop) : List String → Scope → Scope → Prop where
  | refl (scope : Scope) : Turns named [] scope scope
  | declare {name : String} {declared : List String} {scope after : Scope} (isNamed : named name)
      (later : Turns named declared (scope.declare name) after) :
      Turns named (name :: declared) scope after
  | assign {name : String} {value : Value} {declared : List String} {scope changed after : Scope}
      (isNamed : named name) (assigned : scope.assign name value = .ok changed)
      (later : Turns named declared changed after) : Turns named declared scope after
  | block {inside declared : List String} {scope last outer after : Scope} {frame : Frame}
      (within : Turns named inside scope.enter last) (left : last.exit = .ok (frame, outer))
      (later : Turns named declared outer after) : Turns named declared scope after

/-- The scope turns into another one up to the midst of some blocks. -/
inductive Breaks (named : String → Prop) : Scope → Scope → Prop where
  | here {declared : List String} {scope stopped : Scope}
      (turns : scope.Turns named declared stopped) : Breaks named scope stopped
  | inside {declared : List String} {scope middle stopped : Scope}
      (turns : scope.Turns named declared middle) (within : Breaks named middle.enter stopped) :
      Breaks named scope stopped

namespace Turns

variable {named : String → Prop} {declared : List String} {scope after : Scope} {name : String}

theorem trans {more : List String} {last : Scope} (turns : scope.Turns named declared after)
    (later : after.Turns named more last) : scope.Turns named (declared ++ more) last := by
  induction turns with
  | refl scope => exact later
  | declare isNamed _ ih => exact .declare isNamed (ih later)
  | assign isNamed assigned _ ih => exact .assign isNamed assigned (ih later)
  | block within left _ _ ih => exact .block within left (ih later)

theorem breaks {stopped : Scope} (turns : scope.Turns named declared after)
    (later : after.Breaks named stopped) : scope.Breaks named stopped := by
  cases later with
  | here more => exact .here (turns.trans more)
  | inside more within => exact .inside (turns.trans more) within

/-- The frames stay, and so do their names; declarations add names to the innermost frame. -/
theorem names_eq (turns : scope.Turns named declared after) :
    after.names = declared.foldl declareIn scope.names := by
  induction turns with
  | refl scope => rfl
  | declare isNamed _ ih => rw [ih, names_declare, List.foldl_cons]
  | assign isNamed assigned _ ih => rw [ih, names_of_assign assigned]
  | @block inside declared scope last outer after frame within left _ ihWithin ih =>
      -- All that the block declares is in the frame that is discarded with it.
      rcases exists_foldl_declareIn inside [] scope.names with ⟨added, same⟩
      rw [names_enter, same, names_of_exit left] at ihWithin
      rw [ih, (List.cons.inj ihWithin).2]

theorem names_grow (turns : scope.Turns named declared after) :
    ∃ added, after.names = (scope.innermost.names ++ added) :: scope.names.tail := by
  have split : scope.names = scope.innermost.names :: scope.names.tail := by
    rw [names, innermostFirst_eq]
    rfl
  rw [turns.names_eq, split]
  exact exists_foldl_declareIn declared _ _

/-- Bindings of a name that is not used stay as they are. -/
theorem bindings_eq (turns : scope.Turns named declared after) (unused : ¬named name) :
    after.bindings name = scope.bindings name := by
  induction turns with
  | refl scope => rfl
  | @declare other declared scope after isNamed _ ih =>
      have different : name ≠ other := fun same => unused (same ▸ isNamed)
      rw [ih, bindings_declare, if_neg different]
  | @assign other value declared scope changed after isNamed assigned _ ih =>
      have different : name ≠ other := fun same => unused (same ▸ isNamed)
      rw [ih, bindings_of_assign assigned, if_neg different]
  | block within left _ ihWithin ih =>
      rw [bindings_enter, bindings_of_exit left] at ihWithin
      rw [ih, (List.cons.inj ihWithin).2]

/-- A frame that binds a name still binds it, and shields the bindings in the frames around it. -/
theorem shielded (turns : scope.Turns named declared after) {inner outer : List (Option Value)}
    {old : Value} (bound : scope.bindings name = inner ++ some old :: outer) :
    ∃ changed new, after.bindings name = changed ++ some new :: outer ∧
      changed.length = inner.length := by
  induction turns generalizing inner old with
  | refl scope => exact ⟨inner, old, bound, rfl⟩
  | @declare other declared scope after isNamed _ ih =>
      by_cases same : name = other
      · rcases exists_declareBinding old inner outer with ⟨changed, new, declares, sameLength⟩
        rcases ih (by rw [bindings_declare, if_pos same, bound, declares]) with
          ⟨last, newest, finally_, lastLength⟩
        exact ⟨last, newest, finally_, lastLength.trans sameLength⟩
      · exact ih (by rw [bindings_declare, if_neg same, bound])
  | @assign other value declared scope changed after isNamed assigned _ ih =>
      by_cases same : name = other
      · rcases exists_assignBinding value old inner outer with ⟨changed, new, assigns, sameLength⟩
        rcases ih (by rw [bindings_of_assign assigned, if_pos same, bound, assigns]) with
          ⟨last, newest, finally_, lastLength⟩
        exact ⟨last, newest, finally_, lastLength.trans sameLength⟩
      · exact ih (by rw [bindings_of_assign assigned, if_neg same, bound])
  | @block inside declared scope last outerScope after frame within left _ ihWithin ih =>
      have entered : scope.enter.bindings name = (none :: inner) ++ some old :: outer :=
        congrArg (none :: ·) bound
      rcases ihWithin entered with ⟨_ | ⟨first, rest⟩, new, inside, sameLength⟩
      · cases sameLength
      · rw [bindings_of_exit left, List.cons_append] at inside
        rcases ih (List.cons.inj inside).2 with ⟨last, newest, finally_, lastLength⟩
        exact ⟨last, newest, finally_, lastLength.trans (Nat.succ.inj sameLength)⟩

theorem has (turns : scope.Turns named declared after) (bound : scope.has name = true) :
    after.has name = true := by
  rcases has_iff_exists_bindings.mp bound with ⟨inner, old, outer, split⟩
  rcases turns.shielded split with ⟨changed, new, still, _⟩
  exact has_iff_exists_bindings.mpr ⟨changed, new, outer, still⟩

end Turns

namespace Breaks

variable {named : String → Prop} {scope stopped : Scope} {name : String}

theorem bindings_suffix (breaks : scope.Breaks named stopped) (unused : ¬named name) :
    scope.bindings name <:+ stopped.bindings name := by
  induction breaks with
  | here turns => exact turns.bindings_eq unused ▸ List.suffix_rfl
  | inside turns _ ih =>
      rw [bindings_enter, turns.bindings_eq unused] at ih
      exact (List.suffix_cons none _).trans ih

theorem shielded (breaks : scope.Breaks named stopped) {inner outer : List (Option Value)}
    {old : Value} (bound : scope.bindings name = inner ++ some old :: outer) :
    outer <:+ stopped.bindings name := by
  induction breaks generalizing inner old with
  | here turns =>
      rcases turns.shielded bound with ⟨changed, new, still, _⟩
      exact ⟨changed ++ [some new], by simp [still]⟩
  | @inside declared scope middle stopped turns _ ih =>
      rcases turns.shielded bound with ⟨changed, new, still, _⟩
      have entered : middle.enter.bindings name = (none :: changed) ++ some new :: outer :=
        congrArg (none :: ·) still
      exact ih entered

end Breaks

end Scope

end BlockCalc
