import BlockCalc.Hooks

/-!
# Settings

What is fixed for the whole life of a session: the name of the file that locations show, whether the
log keeps the visible bindings, how deep brackets may nest, and the handlers.
-/

namespace BlockCalc

/-- How many brackets may be open at once: at least one and at most two hundred. -/
structure NestingLimit where
  levels : Nat
  one_le : 1 ≤ levels := by decide
  le_greatest : levels ≤ 200 := by decide
deriving DecidableEq

namespace NestingLimit

/-- The greatest nesting limit, which holds where none is given. -/
def greatest : NestingLimit where
  levels := 200

/-- The limit of a number that is in range. -/
def ofInt? (levels : Int) : Option NestingLimit :=
  if inRange : 1 ≤ levels ∧ levels ≤ greatest.levels then
    some
      { levels := levels.toNat
        one_le := by omega
        le_greatest := by simp only [greatest] at inRange; omega }
  else none

end NestingLimit

/-- The name that locations show for a source that is in no file. -/
def unnamedFile : String := "<string>"

/-- The settings of a session. -/
structure Settings (σ : Type) where
  fileName : String := unnamedFile
  /-- Whether the log keeps the visible bindings after each step. -/
  verbose : Bool := false
  nesting : NestingLimit := .greatest
  hooks : Hooks σ := .none

end BlockCalc
