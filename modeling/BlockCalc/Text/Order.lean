/-!
# The order of names

Names are sorted by the codes of their characters, a name before its extensions. The sort inserts
each name before the first one that is not smaller. Its result is the one list that has the same
names and in which none is greater than a later one.
-/

namespace BlockCalc.Text

/-- Whether a sequence of characters comes before another one or is the same. -/
def charactersLe : List Char → List Char → Bool
  | [], _ => true
  | _ :: _, [] => false
  | left :: restLeft, right :: restRight =>
      if left = right then charactersLe restLeft restRight else left.toNat < right.toNat

/-- Whether a name comes before another one or is the same. -/
def nameLe (left right : String) : Bool :=
  charactersLe left.toList right.toList

/-- Inserts a name before the first one that it does not come after. -/
def insertName (name : String) : List String → List String
  | [] => [name]
  | first :: rest =>
      if nameLe name first then name :: first :: rest else first :: insertName name rest

/-- The names in their order. -/
def sortNames (names : List String) : List String :=
  names.foldr insertName []

/-- The name comes before another one, by the codes of their characters, or is the same. -/
def InOrder (left right : String) : Prop :=
  left = right ∨ List.Lex (fun first second : Char => first.toNat < second.toNat) left.toList
    right.toList

theorem charactersLe_iff {left right : List Char} :
    charactersLe left right = true ↔
      left = right ∨ List.Lex (fun first second => first.toNat < second.toNat) left right := by
  induction left generalizing right with
  | nil => cases right <;> simp [charactersLe]
  | cons first rest ih =>
      cases right with
      | nil => simp [charactersLe]
      | cons other others =>
          rw [charactersLe]
          split
          · rename_i same
            subst same
            simp [ih, List.cons_lex_cons_iff]
          · rename_i different
            simp [different, List.cons_lex_cons_iff]

theorem charactersLe_total (left right : List Char) :
    charactersLe left right = true ∨ charactersLe right left = true := by
  induction left generalizing right with
  | nil => exact Or.inl rfl
  | cons first rest ih =>
      cases right with
      | nil => exact Or.inr rfl
      | cons other others =>
          by_cases same : first = other
          · simpa [charactersLe, same] using ih others
          · have codes : first.toNat ≠ other.toNat := fun codes => same (Char.toNat_inj.mp codes)
            simp only [charactersLe, same, Ne.symm same, if_false, decide_eq_true_eq]
            omega

theorem charactersLe_trans {left middle right : List Char}
    (before : charactersLe left middle = true) (behind : charactersLe middle right = true) :
    charactersLe left right = true := by
  induction left generalizing middle right with
  | nil => rfl
  | cons first rest ih =>
      cases middle with
      | nil => cases before
      | cons second others =>
          cases right with
          | nil => cases behind
          | cons third last =>
              by_cases same : first = second
              · subst same
                by_cases further : first = third
                · subst further
                  simp only [charactersLe, if_true] at before behind ⊢
                  exact ih before behind
                · simpa only [charactersLe, further, if_false] using behind
              · by_cases further : second = third
                · subst further
                  simpa only [charactersLe, same, if_false] using before
                · simp only [charactersLe, same, further, if_false, decide_eq_true_eq]
                    at before behind
                  have different : first ≠ third := by
                    rintro rfl
                    omega
                  simp only [charactersLe, different, if_false, decide_eq_true_eq]
                  omega

theorem charactersLe_antisymm {left right : List Char} (before : charactersLe left right = true)
    (behind : charactersLe right left = true) : left = right := by
  induction left generalizing right with
  | nil =>
      cases right with
      | nil => rfl
      | cons other others => cases behind
  | cons first rest ih =>
      cases right with
      | nil => cases before
      | cons other others =>
          by_cases same : first = other
          · subst same
            simp only [charactersLe, if_true] at before behind
            rw [ih before behind]
          · simp only [charactersLe, same, Ne.symm same, if_false, decide_eq_true_eq]
              at before behind
            omega

theorem nameLe_iff {left right : String} : nameLe left right = true ↔ InOrder left right := by
  rw [nameLe, charactersLe_iff, InOrder, String.toList_inj]

instance (left right : String) : Decidable (InOrder left right) :=
  decidable_of_iff _ nameLe_iff

theorem InOrder.total (left right : String) : InOrder left right ∨ InOrder right left := by
  rw [← nameLe_iff, ← nameLe_iff]
  exact charactersLe_total left.toList right.toList

theorem InOrder.trans {left middle right : String} (before : InOrder left middle)
    (behind : InOrder middle right) : InOrder left right := by
  rw [← nameLe_iff] at before behind ⊢
  exact charactersLe_trans before behind

theorem InOrder.antisymm {left right : String} (before : InOrder left right)
    (behind : InOrder right left) : left = right := by
  rw [← nameLe_iff] at before behind
  exact String.toList_inj.mp (charactersLe_antisymm before behind)

theorem perm_insertName (name : String) (names : List String) :
    (insertName name names).Perm (name :: names) := by
  induction names with
  | nil => exact .refl _
  | cons first rest ih =>
      rw [insertName]
      split
      · exact .refl _
      · exact (ih.cons first).trans (.swap name first rest)

theorem pairwise_insertName (name : String) {names : List String}
    (sorted : names.Pairwise InOrder) : (insertName name names).Pairwise InOrder := by
  induction names with
  | nil => exact List.pairwise_singleton _ _
  | cons first rest ih =>
      rw [List.pairwise_cons] at sorted
      rw [insertName]
      split
      · rename_i before
        have least : InOrder name first := nameLe_iff.mp before
        refine List.pairwise_cons.mpr ⟨?_, List.pairwise_cons.mpr sorted⟩
        intro other member
        rcases List.mem_cons.mp member with rfl | later
        · exact least
        · exact least.trans (sorted.1 other later)
      · rename_i behind
        have greater : InOrder first name := by
          rw [nameLe_iff] at behind
          exact (InOrder.total first name).resolve_right behind
        refine List.pairwise_cons.mpr ⟨?_, ih sorted.2⟩
        intro other member
        rcases List.mem_cons.mp ((perm_insertName name rest).mem_iff.mp member) with rfl | later
        · exact greater
        · exact sorted.1 other later

theorem perm_sortNames (names : List String) : (sortNames names).Perm names := by
  induction names with
  | nil => exact .refl _
  | cons name rest ih => exact (perm_insertName name _).trans (ih.cons name)

theorem pairwise_sortNames (names : List String) : (sortNames names).Pairwise InOrder := by
  induction names with
  | nil => exact List.Pairwise.nil
  | cons name rest ih => exact pairwise_insertName name ih

/-- Only the sorted names are the same names in their order. -/
theorem eq_sortNames_iff {names sorted : List String} :
    sorted = sortNames names ↔ sorted.Perm names ∧ sorted.Pairwise InOrder := by
  constructor
  · rintro rfl
    exact ⟨perm_sortNames names, pairwise_sortNames names⟩
  · rintro ⟨perm, pairwise⟩
    exact (perm.trans (perm_sortNames names).symm).eq_of_pairwise
      (fun _ _ _ _ before behind => before.antisymm behind) pairwise
      (pairwise_sortNames names)

end BlockCalc.Text
