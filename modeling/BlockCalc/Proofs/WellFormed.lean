import BlockCalc.Proofs.Effect
import BlockCalc.Proofs.Recording
import Mathlib.Data.List.Forall2
import Mathlib.Tactic.SplitIfs

/-!
# Well-formed values and scopes

A value is well-formed if the numbers in it are words and its pointers point to values that are
present. Literals are, and operators make well-formed values of well-formed ones. A variable holds a
well-formed value that is not void, and every step leads from a scope of such variables to another
one. A variable that holds a value keeps holding one as long as its frame is there.
-/

namespace BlockCalc

namespace Word

theorem inRange_of_checked {result number : Int} (fits : checked result = .ok number) :
    InRange number := by
  simp only [checked] at fits
  split_ifs at fits with high low
  cases fits
  simp only [InRange]
  omega

theorem inRange_toInt (word : BitVec 32) : InRange word.toInt := by
  have lower := word.le_toInt
  have upper : word.toInt < 2 ^ 31 := BitVec.toInt_lt
  simp only [InRange, least, greatest]
  omega

/-- Dividing the sizes and then setting the sign is a division toward zero. -/
theorem truncated_eq_tdiv (dividend divisor : Int) :
    truncated dividend divisor = dividend.tdiv divisor := by
  rcases dividend with above | below <;> rcases divisor with aboveDivisor | belowDivisor <;>
    simp [truncated, Int.tdiv, Int.natAbs, Int.not_ofNat_neg]

/-- What the truncated quotient leaves is the remainder of a division toward zero. -/
theorem sub_mul_truncated (dividend divisor : Int) :
    dividend - divisor * truncated dividend divisor = dividend.tmod divisor := by
  rw [truncated_eq_tdiv, Int.tmod_def]

theorem tmod_between {dividend : Int} (positive : 0 ≤ dividend) (divisor : Int) :
    0 ≤ dividend.tmod divisor ∧ dividend.tmod divisor ≤ dividend := by
  have nonneg := Int.tmod_nonneg divisor positive
  have size : (dividend.tmod divisor).natAbs ≤ dividend.natAbs := by
    rw [Int.natAbs_tmod]
    exact Nat.mod_le _ _
  omega

theorem inRange_tmod {dividend : Int} (inRange : InRange dividend) (divisor : Int) :
    InRange (dividend.tmod divisor) := by
  simp only [InRange, least, greatest] at inRange ⊢
  -- The remainder lies between zero and the dividend, on whichever side of zero that is.
  rcases Int.le_total 0 dividend with positive | negative
  · have between := tmod_between positive divisor
    omega
  · have between := tmod_between (Int.neg_nonneg_of_nonpos negative) divisor
    rw [Int.neg_tmod] at between
    omega

theorem inRange_of_quotient {dividend divisor number : Int}
    (divides : quotient dividend divisor = .ok number) : InRange number := by
  simp only [quotient] at divides
  split_ifs at divides
  exact inRange_of_checked divides

theorem inRange_of_remainder {dividend divisor number : Int} (inRange : InRange dividend)
    (divides : remainder dividend divisor = .ok number) : InRange number := by
  simp only [remainder, sub_mul_truncated] at divides
  split_ifs at divides
  cases divides
  exact inRange_tmod inRange divisor

theorem inRange_of_shiftLeft {number count shifted : Int}
    (shifts : shiftLeft number count = .ok shifted) : InRange shifted := by
  simp only [shiftLeft] at shifts
  split_ifs at shifts
  cases shifts
  exact inRange_toInt _

theorem inRange_of_shiftRight {number count shifted : Int}
    (shifts : shiftRight number count = .ok shifted) : InRange shifted := by
  simp only [shiftRight] at shifts
  split_ifs at shifts
  cases shifts
  exact inRange_toInt _

theorem inRange_bit (condition : Prop) [Decidable condition] :
    InRange (if condition then 1 else 0) := by
  split <;> decide

end Word

namespace Value

/-- The number in the value is a word, and every pointer in it points to a value that is present. -/
def WellFormed : Value → Prop
  | .integer number => Word.InRange number
  | .pointer target => target.Present ∧ target.WellFormed
  | _ => True

theorem wellFormed_ofBool (truth : Bool) : (ofBool truth).WellFormed :=
  Word.inRange_bit (truth = true)

end Value

theorem Literal.inRange_of_integer {literal : String} {number : Int}
    (written : integer literal = .ok number) : Word.InRange number := by
  simp only [integer] at written
  split at written
  · cases written
  · cases written
  · split_ifs at written with tooLong tooGreat
    cases written
    simp only [Word.InRange, Word.least]
    omega

namespace BinaryOp

theorem inRange_of_arithmetic {operator : BinaryOp} {compute : Int → Int → Except Cause Int}
    (isArithmetic : operator.operation = .arithmetic compute) {left right number : Int}
    (leftInRange : Word.InRange left) (computes : compute left right = .ok number) :
    Word.InRange number := by
  cases operator <;> cases isArithmetic
  case mul | sub => exact Word.inRange_of_checked computes
  case div => exact Word.inRange_of_quotient computes
  case rem => exact Word.inRange_of_remainder leftInRange computes
  case shr => exact Word.inRange_of_shiftRight computes
  case shl => exact Word.inRange_of_shiftLeft computes
  case band | bor | bxor =>
    cases computes
    exact Word.inRange_toInt _
  case and | or =>
    cases computes
    exact Word.inRange_bit _

theorem wellFormed_of_combine {operator : BinaryOp} {left right value : Value}
    (leftWellFormed : left.WellFormed) (combines : operator.combine left right = .ok value) :
    value.WellFormed := by
  simp only [combine] at combines
  split at combines
  case h_1 compute leftNumber rightNumber isArithmetic =>
    rcases bind_eq_ok_iff.mp combines with ⟨number, computes, result⟩
    cases result
    exact inRange_of_arithmetic isArithmetic leftWellFormed computes
  case h_3 | h_5 =>
    cases combines
    exact Value.wellFormed_ofBool _
  case h_6 =>
    rcases bind_eq_ok_iff.mp combines with ⟨number, computes, result⟩
    cases result
    exact Word.inRange_of_checked computes
  case h_7 =>
    cases combines
    trivial
  all_goals cases combines

theorem wellFormed_of_apply {operator : BinaryOp} {left right value : Value}
    (leftWellFormed : left.WellFormed) (applies : operator.apply left right = .ok value) :
    value.WellFormed := by
  simp only [apply] at applies
  split at applies
  · cases applies
  · rcases bind_eq_ok_iff.mp applies with ⟨_, _, rest⟩
    rcases bind_eq_ok_iff.mp rest with ⟨_, _, combines⟩
    exact wellFormed_of_combine leftWellFormed combines

end BinaryOp

namespace UnaryOp

theorem wellFormed_of_transform {operator : UnaryOp} {operand value : Value}
    (wellFormed : operand.WellFormed) (present : operand.Present)
    (transforms : operator.transform operand = .ok value) : value.WellFormed := by
  simp only [transform] at transforms
  split at transforms
  case h_1 =>
    cases transforms
    exact ⟨present, wellFormed⟩
  case h_2 =>
    cases transforms
    exact ⟨by simp [Value.Present], present, wellFormed⟩
  case h_3 =>
    cases transforms
    exact wellFormed.2
  case h_5 =>
    cases transforms
    exact wellFormed
  case h_6 =>
    rcases bind_eq_ok_iff.mp transforms with ⟨number, computes, result⟩
    cases result
    exact Word.inRange_of_checked computes
  case h_7 =>
    cases transforms
    exact Word.inRange_toInt _
  case h_8 =>
    cases transforms
    exact Value.wellFormed_ofBool _
  all_goals cases transforms

theorem wellFormed_of_apply {operator : UnaryOp} {operand value : Value}
    (wellFormed : operand.WellFormed) (applies : operator.apply operand = .ok value) :
    value.WellFormed := by
  rcases bind_eq_ok_iff.mp applies with ⟨_, expected, transforms⟩
  exact wellFormed_of_transform wellFormed (Value.present_of_expectPresent expected) transforms

end UnaryOp

theorem Value.closed_wellFormed : Closed WellFormed where
  void := trivial
  text _ := trivial
  integer written := Literal.inRange_of_integer written
  binary leftWellFormed _ applies := BinaryOp.wellFormed_of_apply leftWellFormed applies
  unary wellFormed applies := UnaryOp.wellFormed_of_apply wellFormed applies

namespace Frame

/-- The variables of the frame hold well-formed values, and none of them is void. -/
def WellFormed (frame : Frame) : Prop :=
  ∀ binding ∈ frame.entries, binding.2 ≠ .void ∧ binding.2.WellFormed

/-- The frame binds the name to a value that has been assigned. -/
def Assigned (frame : Frame) (name : String) : Prop :=
  ∃ value, frame.get? name = some value ∧ value ≠ .uninitialized

/-- What a step makes of a frame that stays: at most one binding is another one. -/
inductive Becomes (good : Value → Prop) (frame : Frame) : Frame → Prop where
  | same : Becomes good frame frame
  | declared (name : String) : Becomes good frame (frame.insertIfNew name .uninitialized)
  | assigned (name : String) {value : Value} (holds : good value) (present : value.Present) :
      Becomes good frame (frame.insert name value)

theorem mem_of_mem_insertEntry {name : String} {value : Value} {entries : List (String × Value)}
    {binding : String × Value} (member : binding ∈ insertEntry name value entries) :
    binding = (name, value) ∨ binding ∈ entries := by
  induction entries with
  | nil => simpa [insertEntry] using member
  | cons entry rest ih =>
      rcases entry with ⟨key, old⟩
      simp only [insertEntry] at member
      split at member
      · rename_i same
        rw [same, List.mem_cons] at member
        exact member.imp_right (List.mem_cons_of_mem _)
      · rw [List.mem_cons] at member
        rcases member with rfl | member
        · exact Or.inr List.mem_cons_self
        · exact (ih member).imp_right (List.mem_cons_of_mem _)

theorem WellFormed.insert {frame : Frame} (wellFormed : WellFormed frame) (name : String)
    {value : Value} (noVoid : value ≠ .void) (valueWellFormed : value.WellFormed) :
    WellFormed (frame.insert name value) := by
  intro binding member
  rcases mem_of_mem_insertEntry member with rfl | member
  · exact ⟨noVoid, valueWellFormed⟩
  · exact wellFormed binding member

theorem Becomes.wellFormed {frame changed : Frame}
    (becomes : Becomes Value.WellFormed frame changed) (wellFormed : WellFormed frame) :
    WellFormed changed := by
  cases becomes with
  | same => exact wellFormed
  | declared name =>
      simp only [Table.insertIfNew]
      split
      · exact wellFormed
      · exact wellFormed.insert name (by simp) trivial
  | assigned name holds present => exact wellFormed.insert name present.1 holds

/-- Neither a declaration nor an assignment takes a value away from a variable that has one. -/
theorem Becomes.assigned_stays {good : Value → Prop} {frame changed : Frame}
    (becomes : Becomes good frame changed) {name : String} (assigned : Assigned frame name) :
    Assigned changed name := by
  rcases assigned with ⟨value, found, isValue⟩
  cases becomes with
  | same => exact ⟨value, found, isValue⟩
  | declared other =>
      refine ⟨value, ?_, isValue⟩
      rw [Table.get?_insertIfNew]
      split
      · rename_i same
        rw [← same, found]
        rfl
      · exact found
  | @assigned other newValue holds present =>
      by_cases same : name = other
      · exact ⟨newValue, by simp [same], present.2⟩
      · exact ⟨value, by simpa [Table.get?_insert, same] using found, isValue⟩

end Frame

/-- The frames of two scopes in step, each in the second one made from its partner. -/
def AllBecome (good : Value → Prop) (frames changed : List Frame) : Prop :=
  frames.Forall₂ (Frame.Becomes good) changed

namespace AllBecome

variable {good : Value → Prop} {frames changed : List Frame}

theorem refl (frames : List Frame) : AllBecome good frames frames :=
  List.forall₂_same.mpr fun _ _ => .same

theorem exists_getElem? (become : AllBecome good frames changed) {index : Nat} {frame : Frame}
    (found : frames[index]? = some frame) :
    ∃ other, changed[index]? = some other ∧ Frame.Becomes good frame other := by
  induction become generalizing index with
  | nil => simp at found
  | @cons first other rest otherRest becomes _ ih =>
      rcases index with _ | index
      · cases found
        exact ⟨other, rfl, becomes⟩
      · exact ih found

theorem exists_of_mem (become : AllBecome good frames changed) {frame : Frame}
    (member : frame ∈ changed) : ∃ old ∈ frames, Frame.Becomes good old frame := by
  induction become with
  | nil => cases member
  | @cons first other rest otherRest becomes _ ih =>
      rcases List.mem_cons.mp member with rfl | member
      · exact ⟨first, List.mem_cons_self, becomes⟩
      · rcases ih member with ⟨old, oldMember, oldBecomes⟩
        exact ⟨old, List.mem_cons_of_mem _ oldMember, oldBecomes⟩

theorem assignFirst? {name : String} {value : Value} (holds : good value)
    (present : value.Present) (assigned : assignFirst? name value frames = some changed) :
    AllBecome good frames changed := by
  induction frames generalizing changed with
  | nil => cases assigned
  | cons frame rest ih =>
      simp only [BlockCalc.assignFirst?] at assigned
      split at assigned
      · cases assigned
        exact .cons (.assigned name holds present) (refl rest)
      · rcases Option.map_eq_some_iff.mp assigned with ⟨changedRest, restAssigned, rfl⟩
        exact .cons .same (ih restAssigned)

end AllBecome

theorem findSome?_of_assignFirst? {name : String} {value : Value} {frames changed : List Frame}
    (assigned : assignFirst? name value frames = some changed) :
    changed.findSome? (·.get? name) = some value := by
  induction frames generalizing changed with
  | nil => cases assigned
  | cons frame rest ih =>
      simp only [assignFirst?] at assigned
      split at assigned
      · cases assigned
        simp
      · rename_i absent
        rcases Option.map_eq_some_iff.mp assigned with ⟨changedRest, restAssigned, rfl⟩
        simp only [Table.contains, Bool.not_eq_true, Option.isSome_eq_false_iff,
          Option.isNone_iff_eq_none] at absent
        simp [absent, ih restAssigned]

namespace Scope

variable {good : Value → Prop} {scope changed : Scope} {step : Step} {name : String} {depth : Nat}

/-- All values that a scope binds are well formed. -/
def WellFormed (scope : Scope) : Prop :=
  ∀ frame ∈ scope.outermostFirst, Frame.WellFormed frame

/-- The frame at a depth binds the name to a value that has been assigned. -/
def Assigned (scope : Scope) (depth : Nat) (name : String) : Prop :=
  ∃ frame, scope.outermostFirst[depth]? = some frame ∧ Frame.Assigned frame name

theorem outermostFirst_eq_reverse (scope : Scope) :
    scope.outermostFirst = scope.innermostFirst.reverse := by
  simp [outermostFirst, innermostFirst]

theorem allBecome_of_innermostFirst
    (become : AllBecome good scope.innermostFirst changed.innermostFirst) :
    AllBecome good scope.outermostFirst changed.outermostFirst := by
  rw [outermostFirst_eq_reverse, outermostFirst_eq_reverse]
  exact List.forall₂_reverse_iff.mpr become

theorem allBecome_declare (scope : Scope) (name : String) :
    AllBecome good scope.outermostFirst (scope.declare name).outermostFirst := by
  apply allBecome_of_innermostFirst
  rcases scope with ⟨top, _ | ⟨frame, outer⟩⟩
  · exact .cons (.declared name) .nil
  · exact .cons (.declared name) (AllBecome.refl (outer ++ [top]))

theorem allBecome_of_assign {value : Value} (holds : good value) (present : value.Present)
    (assigned : scope.assign name value = .ok changed) :
    AllBecome good scope.outermostFirst changed.outermostFirst :=
  allBecome_of_innermostFirst
    (AllBecome.assignFirst? holds present (assignFirst?_of_assign assigned))

/-- A step keeps all frames up to small changes, or adds an empty one, or removes the last one. -/
theorem Takes.frames (takes : scope.Takes good step changed) :
    AllBecome good scope.outermostFirst changed.outermostFirst ∨
      changed.outermostFirst = scope.outermostFirst ++ [.empty] ∨
      ∃ frame, scope.outermostFirst = changed.outermostFirst ++ [frame] := by
  cases takes with
  | parse tokens => exact Or.inl (.refl _)
  | declare name => exact Or.inl (scope.allBecome_declare name)
  | enterScope => exact Or.inr (Or.inl (by simp [enter, outermostFirst]))
  | @exitScope frame outer left =>
      refine Or.inr (Or.inr ⟨frame, ?_⟩)
      simp only [exit] at left
      split at left
      · cases left
      · rename_i blocks
        cases left
        simp [outermostFirst, blocks]
  | reduce operator operands => exact Or.inl (.refl _)
  | assign operator holds present assigned =>
      exact Or.inl (allBecome_of_assign holds present assigned)

theorem Takes.wellFormed (takes : scope.Takes Value.WellFormed step changed)
    (wellFormed : scope.WellFormed) : changed.WellFormed := by
  intro frame member
  rcases takes.frames with become | entered | ⟨discarded, left⟩
  · rcases become.exists_of_mem member with ⟨old, oldMember, becomes⟩
    exact becomes.wellFormed (wellFormed old oldMember)
  · rw [entered, List.mem_append, List.mem_singleton] at member
    rcases member with member | rfl
    · exact wellFormed frame member
    · intro binding bindingMember
      cases bindingMember
  · exact wellFormed frame (left ▸ List.mem_append_left [discarded] member)

@[simp]
theorem length_outermostFirst (scope : Scope) : scope.outermostFirst.length = scope.depth + 1 := by
  simp [outermostFirst, depth]

theorem wellFormed_of_read (wellFormed : scope.WellFormed) {value : Value}
    (reads : scope.read name = .ok value) : value.WellFormed := by
  simp only [read] at reads
  split at reads
  · rename_i found
    cases reads
    rcases List.exists_of_findSome?_eq_some found with ⟨frame, member, frameFound⟩
    rcases List.lookup_eq_some_iff.mp frameFound with ⟨before, after, entries, _⟩
    have binding : (name, value) ∈ frame.entries := by simp [entries]
    rw [← List.mem_reverse, ← outermostFirst_eq_reverse] at member
    exact (wellFormed frame member _ binding).2
  · cases reads

theorem read?_of_assign {value : Value} (assigned : scope.assign name value = .ok changed) :
    changed.read? name = some value :=
  findSome?_of_assignFirst? (assignFirst?_of_assign assigned)

theorem Takes.assigned_stays (takes : scope.Takes good step changed)
    (assigned : scope.Assigned depth name) (there : depth ≤ changed.depth) :
    changed.Assigned depth name := by
  rcases assigned with ⟨frame, found, frameAssigned⟩
  -- Counted from the outermost one, frames keep their places when a block is entered or left.
  rcases takes.frames with become | entered | ⟨discarded, left⟩
  · rcases become.exists_getElem? found with ⟨other, otherFound, becomes⟩
    exact ⟨other, otherFound, becomes.assigned_stays frameAssigned⟩
  · refine ⟨frame, ?_, frameAssigned⟩
    rw [entered, List.getElem?_append_left (List.getElem?_eq_some_iff.mp found).1, found]
  · refine ⟨frame, ?_, frameAssigned⟩
    have within : depth < changed.outermostFirst.length := by
      rw [length_outermostFirst]
      omega
    rw [left, List.getElem?_append_left within] at found
    exact found

theorem wellFormed_unwind (wellFormed : scope.WellFormed) : scope.unwind.WellFormed := by
  intro frame member
  rw [List.mem_singleton.mp member]
  exact wellFormed scope.top List.mem_cons_self

theorem assigned_unwind (assigned : scope.Assigned depth name)
    (there : depth ≤ scope.unwind.depth) : scope.unwind.Assigned depth name := by
  have outermost : depth = 0 := Nat.le_zero.mp there
  subst outermost
  exact assigned

end Scope

end BlockCalc
