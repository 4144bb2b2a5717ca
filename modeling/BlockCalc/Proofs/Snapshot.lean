import BlockCalc.Proofs.WellFormed
import Mathlib.Data.List.Induction

/-!
# What a snapshot shows

A snapshot is made from the outermost frame inward, so that an inner binding overwrites the value of
an outer one but keeps its place, while a name is looked up from the innermost frame outward. The
two agree: a snapshot has the names that are bound, each once and in the order in which they appear
first, with the values that looking them up gives.
-/

namespace BlockCalc

namespace Table

variable {α β : Type}

theorem get?_map (transform : α → β) (table : Table α) (name : String) :
    (table.map transform).get? name = (table.get? name).map transform := by
  rcases table with ⟨entries, nodup⟩
  simp only [get?, map]
  clear nodup
  induction entries with
  | nil => rfl
  | cons entry rest ih =>
      rcases entry with ⟨key, value⟩
      by_cases same : name = key
      · simp [same]
      · simp [List.lookup_cons, beq_eq_false_iff_ne.mpr same, ih]

theorem ofList_append_singleton (pairs : List (String × α)) (name : String) (value : α) :
    ofList (pairs ++ [(name, value)]) = (ofList pairs).insert name value := by
  simp [ofList, insertMany]

/-- Names stand where they were inserted first. -/
theorem names_ofList (pairs : List (String × α)) :
    (ofList pairs).names = (pairs.map Prod.fst).eraseDups := by
  induction pairs using List.reverseRecOn with
  | nil => rfl
  | append_singleton before pair ih =>
      rcases pair with ⟨name, value⟩
      rw [ofList_append_singleton, names_insert, ih, List.map_append, List.eraseDups_append]
      by_cases member : name ∈ before.map Prod.fst
      · simp [List.removeAll, member]
      · simp [List.removeAll, member, List.eraseDups_cons]

end Table

namespace Scope

theorem visible_eq_ofList (scope : Scope) :
    scope.visible = .ofList (scope.outermostFirst.flatMap (·.entries)) := by
  simp only [visible, Table.ofList, Table.insertMany, List.foldl_flatMap]

theorem names_snapshot (scope : Scope) :
    scope.snapshot.names = (scope.outermostFirst.flatMap Table.names).eraseDups := by
  rw [snapshot, Table.names_map, visible_eq_ofList, Table.names_ofList, List.map_flatMap]
  rfl

/-- Of the frames that have a name, the last one that is inserted tells its value. -/
theorem get?_foldl_insertMany (frames : List Frame) (name : String) :
    (frames.foldl (fun table frame => table.insertMany frame.entries)
      (.empty : Table Value)).get? name = frames.reverse.findSome? (·.get? name) := by
  induction frames using List.reverseRecOn with
  | nil => rfl
  | append_singleton before frame ih =>
      rw [List.foldl_append, List.foldl_cons, List.foldl_nil, Table.get?_insertMany frame.nodup, ih,
        List.reverse_append, List.reverse_singleton, List.singleton_append, List.findSome?_cons]
      cases found : frame.get? name with
      | some value => rw [← Table.get?, found, Option.some_or]
      | none => rw [← Table.get?, found, Option.none_or]

theorem get?_visible (scope : Scope) (name : String) :
    scope.visible.get? name = scope.read? name := by
  rw [visible, get?_foldl_insertMany, outermostFirst_eq_reverse, List.reverse_reverse, read?]

theorem get?_snapshot (scope : Scope) (name : String) :
    scope.snapshot.get? name = (scope.read? name).map fun value => clip value.render := by
  rw [snapshot, Table.get?_map, get?_visible]

end Scope

end BlockCalc
