import BlockCalc.Dialogue
import BlockCalc.Proofs.Recording
import Mathlib

/-!
# Values that are shown

The text that shows a value tells which value it is, also where a text looks like another value or
like the end of its own quotes. A shown text is made in two passes, one that doubles backslashes and
one that puts a backslash before each double quote. Either pass can be undone from the end of the
text, because there the last character is the one that was shown last.
-/

namespace BlockCalc

namespace Value

/-- Puts a backslash before every occurrence of a character. -/
def mask (special : Char) (text : List Char) : List Char :=
  text.flatMap fun character => if character = special then ['\\', character] else [character]

theorem mask_concat (special : Char) (before : List Char) (last : Char) :
    mask special (before ++ [last]) =
      mask special before ++ (if last = special then ['\\'] else []) ++ [last] := by
  by_cases isSpecial : last = special <;> simp [mask, isSpecial]

theorem mask_injective (special : Char) : Function.Injective (mask special) := by
  intro left
  induction left using List.reverseRecOn with
  | nil =>
      intro right same
      rcases List.eq_nil_or_concat' right with rfl | ⟨before, last, rfl⟩
      · rfl
      · rw [mask_concat] at same
        simp [mask] at same
  | append_singleton before last ih =>
      intro right same
      rcases List.eq_nil_or_concat' right with rfl | ⟨otherBefore, otherLast, rfl⟩
      · rw [mask_concat] at same
        simp [mask] at same
      · rw [mask_concat, mask_concat] at same
        rcases List.append_inj' same rfl with ⟨sameFront, sameLast⟩
        cases sameLast
        rw [ih (List.append_cancel_right sameFront)]

/-- Backslashes are doubled first, and then the double quotes are masked. -/
theorem toList_escape (content : String) :
    (escape content).toList = mask '"' (mask '\\' content.toList) := by
  simp only [escape, String.toList_ofList, mask, List.flatMap_assoc]
  congr 1
  funext character
  by_cases backslash : character = '\\'
  · simp [escapeChar, backslash]
  · by_cases quote : character = '"'
    · simp [escapeChar, quote]
    · simp [escapeChar, backslash, quote]

theorem escape_injective : Function.Injective escape := by
  intro left right same
  rw [String.ext_iff, toList_escape, toList_escape] at same
  exact String.ext (mask_injective _ (mask_injective _ same))

/-- The character that the text of a value begins with, which tells the kind of the value. -/
def initial : Value → Char
  | void => 'V'
  | uninitialized => 'U'
  | integer _ => 'I'
  | text _ => 'S'
  | pointer _ => 'P'

theorem head?_render (value : Value) : value.render.toList.head? = some value.initial := by
  cases value <;> simp [render, initial]

theorem initial_eq_of_render_eq {left right : Value} (same : left.render = right.render) :
    left.initial = right.initial := by
  rw [← Option.some.injEq, ← head?_render, ← head?_render, same]

theorem render_injective : Function.Injective render := by
  intro left right same
  have sameKind := initial_eq_of_render_eq same
  induction left generalizing right with
  | void =>
      cases right <;> cases sameKind
      rfl
  | uninitialized =>
      cases right <;> cases sameKind
      rfl
  | integer number =>
      cases right <;> cases sameKind
      simpa [render, Int.repr_inj] using same
  | text content =>
      cases right <;> cases sameKind
      simpa [render, escape_injective.eq_iff] using same
  | pointer target ih =>
      cases right <;> cases sameKind
      rename_i other
      have sameTarget : target.render = other.render := by simpa [render] using same
      rw [ih sameTarget (initial_eq_of_render_eq sameTarget)]

end Value

theorem Dialogue.valueEvents_injective : Function.Injective valueEvents := by
  intro left right same
  simp only [valueEvents] at same
  split at same <;> split at same
  · rename_i leftVoid rightVoid
    rw [leftVoid, rightVoid]
  · cases same
  · cases same
  · simp only [List.cons.injEq, Event.output.injEq, and_true] at same
    exact Value.render_injective same

/-- What the record of an assignment tells of the value is the text that shows it. -/
theorem Entry.Tells.get?_value {entry : Entry} {log : StepLog} {name : String}
    {operator : BinaryOp} {value : Value} (tells : entry.Tells log (.assign name operator value)) :
    entry.record.get? "value" = some (.text value.render) := by
  rw [tells.get?_record (by decide) (by decide)]
  simp [Step.fields, Step.details, List.lookup_cons]

/--
Values that are shown alike are the same value. So the answer of a dialogue tells which value an
evaluation gave, and the record of an assignment which value was assigned.
-/
theorem Value.render_eq_iff {σ : Type} (left right : Value) :
    (left.render = right.render ↔ left = right) ∧
      (Dialogue.valueEvents left = Dialogue.valueEvents right ↔ left = right) ∧
      ∀ (settings : Settings σ) (session other : Session σ) (name otherName : String)
        (operator otherOperator : BinaryOp) (location otherLocation : Option Location),
        (session.entry settings (.assign name operator left) location).record.get? "value" =
            (other.entry settings (.assign otherName otherOperator right)
              otherLocation).record.get? "value" ↔
          left = right := by
  refine ⟨render_injective.eq_iff, Dialogue.valueEvents_injective.eq_iff, ?_⟩
  intro settings session other name otherName operator otherOperator location otherLocation
  have leftTells := session.tells_entry settings (.assign name operator left) location
  have rightTells := other.tells_entry settings (.assign otherName otherOperator right)
    otherLocation
  rw [leftTells.get?_value, rightTells.get?_value, Option.some.injEq, Json.text.injEq,
    render_injective.eq_iff]

end BlockCalc
