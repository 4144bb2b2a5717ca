import BlockCalc.Proofs.Alike
import BlockCalc.Proofs.Tokenization

/-!
# Texts without their comments

Comments are skipped as if they were not there, and this is so in the literal sense: a text without
its comments has the same tokens, at other places. What stands before a comment and behind it comes
to stand side by side, but never makes a comment there, because a slash before the slash of a
comment would have begun one itself.
-/

namespace BlockCalc

/-- A text without its comments; the line feed behind a line comment stays. -/
def withoutComments : List Char → List Char
  | [] => []
  | '/' :: '/' :: rest => withoutComments (rest.dropWhile (· ≠ '\n'))
  | '/' :: '*' :: rest => withoutComments (afterBlockComment rest)
  | '"' :: rest => '"' :: ((splitString '"' rest).1 ++ withoutComments (splitString '"' rest).2)
  | character :: rest => character :: withoutComments rest
termination_by text => text.length
decreasing_by
  · have := (List.dropWhile_suffix (l := rest) (· ≠ '\n')).length_le
    simp only [List.length_cons]
    omega
  · have := length_afterBlockComment_le rest
    simp only [List.length_cons]
    omega
  · have := length_splitString_le '"' rest
    simp only [List.length_cons]
    omega
  · simp

/-- The rest of a literal is found again where something else follows it than before. -/
theorem splitString_append (previous : Char) (text following : List Char)
    (ends : (splitString previous text).2 = [] → following = []) :
    splitString previous ((splitString previous text).1 ++ following) =
      ((splitString previous text).1, following) := by
  fun_induction splitString previous text with
  | case1 =>
      rw [ends rfl]
      rfl
  | case2 previous character rest closes => simp [splitString, closes]
  | case3 previous character rest continues literal remaining split ih =>
      simp only [split] at ih
      simp [splitString, continues, ih ends]

namespace Lexeme

variable {pending other : Lexeme} (same : other.reversed = pending.reversed)

include same

theorem alike_tokens (mode : ScanMode) :
    (pending.tokens mode).Forall₂ Token.Alike (other.tokens mode) := by
  rcases pending with ⟨reversed, start⟩
  rcases other with ⟨_, otherStart⟩
  cases same
  rcases reversed with _ | ⟨last, before⟩
  · exact .nil
  · exact .cons ⟨otherStart, rfl⟩ .nil

theorem joins_eq (character : Char) : other.joins character = pending.joins character := by
  simp only [joins, same]

theorem reversed_push (character : Char) (position otherPosition : Position) :
    (other.push character otherPosition).reversed =
      (pending.push character position).reversed := by
  rcases pending with ⟨reversed, start⟩
  rcases other with ⟨_, otherStart⟩
  cases same
  cases reversed <;> rfl

end Lexeme

/-- Taking comments away starts no comment behind a character that does not start one. -/
theorem head?_withoutComments {character : Char} (noSlash : character ≠ '/') (rest : List Char) :
    (withoutComments (character :: rest)).head? = some character := by
  by_cases quote : character = '"'
  · subst quote
    simp [withoutComments]
  · rw [withoutComments]
    · rfl
    · exact fun _ slash _ => noSlash slash
    · exact fun _ slash _ => noSlash slash
    · exact quote

theorem no_slash_withoutComments {rest : List Char}
    (noLine : ∀ following, rest = '/' :: following → False) (following : List Char) :
    withoutComments rest ≠ '/' :: following := by
  intro starts
  rcases rest with _ | ⟨next, others⟩
  · simp [withoutComments] at starts
  · have noSlash : next ≠ '/' := fun slash => noLine others (by rw [slash])
    have head := head?_withoutComments noSlash others
    rw [starts] at head
    exact noSlash (Option.some.inj head).symm

theorem no_star_withoutComments {rest : List Char}
    (noLine : ∀ following, rest = '/' :: following → False)
    (noBlock : ∀ following, rest = '*' :: following → False) (following : List Char) :
    withoutComments rest ≠ '*' :: following := by
  intro starts
  rcases rest with _ | ⟨next, others⟩
  · simp [withoutComments] at starts
  · have noSlash : next ≠ '/' := fun slash => noLine others (by rw [slash])
    have head := head?_withoutComments noSlash others
    rw [starts] at head
    exact noBlock others (by rw [Option.some.inj head])

theorem alike_scan_withoutComments (text : List Char) {pending other : Lexeme}
    (same : other.reversed = pending.reversed) (position otherPosition : Position) :
    (scan .code pending position text).1.Forall₂ Token.Alike
      (scan .code other otherPosition (withoutComments text)).1 := by
  fun_induction withoutComments text generalizing pending other position otherPosition with
  | case1 => exact Lexeme.alike_tokens same .code
  | case2 rest ih =>
      rw [scan_code_lineComment, scan_lineComment]
      exact ih same _ otherPosition
  | case3 rest ih =>
      rw [scan_code_blockComment, scan_blockComment]
      exact ih same _ otherPosition
  | case4 rest ih =>
      have found : splitString '"' ((splitString '"' rest).1 ++
          withoutComments (splitString '"' rest).2) =
            ((splitString '"' rest).1, withoutComments (splitString '"' rest).2) :=
        splitString_append '"' rest _ fun empty => by simp [empty, withoutComments]
      rcases scan_string '"' [] position (position.after '"') rest with
        ⟨token, kind, written, _, scanned⟩
      rcases scan_string '"' [] otherPosition (otherPosition.after '"')
        ((splitString '"' rest).1 ++ withoutComments (splitString '"' rest).2) with
        ⟨otherToken, otherKind, otherWritten, _, otherScanned⟩
      rw [found] at otherWritten otherScanned
      have alike : token.Alike otherToken :=
        Token.alike_iff.mpr
          ⟨otherKind.trans kind.symm, String.ext (otherWritten.trans written.symm)⟩
      rw [scan_code_quote, scan_code_quote]
      simp only [Lexeme.single, scanned, otherScanned]
      exact List.rel_append (Lexeme.alike_tokens same .code) (.cons alike (ih rfl _ _))
  | case5 character rest noLine noBlock noQuote ih =>
      have stillNoLine : ∀ following, character = '/' →
          withoutComments rest = '/' :: following → False := fun following slash =>
        no_slash_withoutComments (fun others starts => noLine others slash starts) following
      have stillNoBlock : ∀ following, character = '/' →
          withoutComments rest = '*' :: following → False := fun following slash =>
        no_star_withoutComments (fun others starts => noLine others slash starts)
          (fun others starts => noBlock others slash starts) following
      have noString : character ≠ '"' := noQuote
      rw [scan_code_of_no_comment noLine noBlock,
        scan_code_of_no_comment stillNoLine stillNoBlock]
      simp only [noString, if_false, Lexeme.joins_eq same]
      have flushed := Lexeme.alike_tokens same .code
      split
      · exact List.rel_append flushed (ih rfl _ _)
      · split
        · exact ih (Lexeme.reversed_push same character position otherPosition) _ _
        · have single : (Lexeme.single character otherPosition).reversed =
              (Lexeme.single character position).reversed := rfl
          exact List.rel_append flushed (ih single _ _)

/-- A text without its comments has the same tokens, wherever the two texts follow. -/
theorem Lexer.alike_newTokens_withoutComments (lexer other : Lexer) (text : String) :
    (lexer.newTokens text).Forall₂ Token.Alike
      (other.newTokens (String.ofList (withoutComments text.toList))) := by
  simp only [newTokens, String.toList_ofList]
  exact alike_scan_withoutComments text.toList rfl lexer.position other.position

end BlockCalc
