import BlockCalc.Proofs.TokenKinds
import BlockCalc.Proofs.Tree

/-!
# The tree of an expression

The tokens of an expression have one ordered tree. There is one, because an operator and the operand
behind it extend an ordered tree along its right edge, at the place that their priority gives. There
is no other, because the tokens can be cut into operands and operators in one way only, and an
ordered tree is what comes of extending its first operand by the rest, one after the other.
-/

namespace BlockCalc

/-- A binary operator with the operand behind it. -/
structure Link where
  operator : BinaryOp
  token : Token
  operand : Tree

/-- The tokens of a link write it, and its operand is an ordered one. -/
structure Link.Proper (link : Link) : Prop where
  writes : link.token.binary? = some link.operator
  plain : link.operator.isAssignment = false
  tight : link.operand.level = 0
  written : link.operand.Written
  ordered : link.operand.Ordered

namespace Tree

/-- The tree with one more operator and operand at its end. -/
def extend (link : Link) : Tree → Tree
  | atom token => binary link.operator link.token (atom token) link.operand
  | unary operator token operand =>
      binary link.operator link.token (unary operator token operand) link.operand
  | parens opener inner closer =>
      binary link.operator link.token (parens opener inner closer) link.operand
  | binary operator token left right =>
      if link.operator.priority < operator.priority then
        binary operator token left (right.extend link)
      else binary link.operator link.token (binary operator token left right) link.operand

theorem extend_of_level_le {tree : Tree} {link : Link}
    (tight : tree.level ≤ link.operator.priority + 1) :
    tree.extend link = binary link.operator link.token tree link.operand := by
  cases tree with
  | binary operator token left right =>
      have noLooser : ¬link.operator.priority < operator.priority := by
        simp only [level] at tight
        omega
      rw [extend, if_neg noLooser]
  | _ => rfl

theorem tokens_extend (tree : Tree) (link : Link) :
    (tree.extend link).tokens = tree.tokens ++ link.token :: link.operand.tokens := by
  induction tree with
  | binary operator token left right _ ih =>
      simp only [extend]
      split
      · simp [tokens, ih]
      · simp [tokens]
  | _ => rfl

theorem depth_extend (tree : Tree) (link : Link) :
    (tree.extend link).depth = max tree.depth link.operand.depth := by
  induction tree with
  | binary operator token left right _ ih =>
      simp only [extend]
      split
      · simp [depth, ih, Nat.max_assoc]
      · simp [depth]
  | _ => rfl

theorem level_extend (tree : Tree) (link : Link) :
    (tree.extend link).level = max tree.level (link.operator.priority + 1) := by
  cases tree with
  | binary operator token left right =>
      simp only [extend]
      split <;> simp only [level] <;> omega
  | _ => simp [extend, level]

theorem written_extend {tree : Tree} {link : Link} (written : tree.Written)
    (proper : link.Proper) : (tree.extend link).Written := by
  induction tree with
  | binary operator token left right _ ih =>
      simp only [extend]
      split
      · exact ⟨written.1, written.2.1, written.2.2.1, ih written.2.2.2⟩
      · exact ⟨proper.writes, proper.plain, written, proper.written⟩
  | _ => exact ⟨proper.writes, proper.plain, written, proper.written⟩

theorem ordered_binary {tree : Tree} {link : Link} (tight : tree.level ≤ link.operator.priority + 1)
    (ordered : tree.Ordered) (proper : link.Proper) :
    (binary link.operator link.token tree link.operand).Ordered := by
  have operandTight := proper.tight
  exact ⟨tight, by omega, ordered, proper.ordered⟩

theorem ordered_extend {tree : Tree} {link : Link} (ordered : tree.Ordered)
    (proper : link.Proper) : (tree.extend link).Ordered := by
  induction tree with
  | binary operator token left right _ ih =>
      simp only [extend]
      split
      · rename_i tighter
        rcases ordered with ⟨leftTight, rightTight, leftOrdered, rightOrdered⟩
        refine ⟨leftTight, ?_, leftOrdered, ih rightOrdered⟩
        rw [level_extend]
        omega
      · rename_i noTighter
        exact ordered_binary (by simp only [level]; omega) ordered proper
  | _ => exact ordered_binary (Nat.zero_le _) ordered proper

/-- Every phrase has an ordered tree, and that of an operand binds tightest. -/
theorem exists_spells {phrase : Phrase} {levels : Nat} {tokens : List Token}
    (grammar : Grammar phrase levels tokens) :
    ∃ tree : Tree, tree.Spells tokens ∧ tree.depth ≤ levels ∧
      (phrase = .operand → tree.level = 0) := by
  induction grammar with
  | @atom levels token leaf =>
      exact ⟨.atom token, ⟨rfl, leaf, trivial⟩, Nat.zero_le _, fun _ => rfl⟩
  | @unary levels token _ operator writes _ ih =>
      rcases ih with ⟨tree, spells, shallow, tight⟩
      refine ⟨.unary operator token tree, ⟨?_, ?_, ?_⟩, shallow, fun _ => rfl⟩
      · simp only [Tree.tokens, spells.tokens_eq]
      · exact ⟨writes, spells.written⟩
      · exact ⟨tight rfl, spells.ordered⟩
  | @parens levels opener closer _ opens closes _ ih =>
      rcases ih with ⟨tree, spells, shallow, _⟩
      refine ⟨.parens opener tree closer, ⟨?_, ?_, ?_⟩, Nat.succ_le_succ shallow, fun _ => rfl⟩
      · simp only [Tree.tokens, spells.tokens_eq]
      · exact ⟨opens, closes, spells.written⟩
      · exact spells.ordered
  | single _ ih =>
      rcases ih with ⟨tree, spells, shallow, _⟩
      exact ⟨tree, spells, shallow, nofun⟩
  | @binary levels token _ _ operator _ writes plain _ ihLeft ihRight =>
      rcases ihLeft with ⟨tree, spells, shallow, _⟩
      rcases ihRight with ⟨operand, operandSpells, operandShallow, tight⟩
      let link : Link := { operator, token, operand }
      have proper : link.Proper :=
        ⟨writes, plain, tight rfl, operandSpells.written, operandSpells.ordered⟩
      refine ⟨tree.extend link, ⟨?_, ?_, ?_⟩, ?_, nofun⟩
      · rw [tokens_extend, spells.tokens_eq, operandSpells.tokens_eq]
      · exact written_extend spells.written proper
      · exact ordered_extend spells.ordered proper
      · rw [depth_extend]
        exact Nat.max_le.mpr ⟨shallow, operandShallow⟩

/-- The first operand of a tree. -/
def first : Tree → Tree
  | binary _ _ left _ => left.first
  | atom token => atom token
  | unary operator token operand => unary operator token operand
  | parens opener inner closer => parens opener inner closer

/-- The links that follow the first operand of a tree. -/
def links : Tree → List Link
  | binary operator token left right =>
      left.links ++ { operator, token, operand := right.first } :: right.links
  | _ => []

/-- The tokens of links one after the other. -/
def spellLinks (links : List Link) : List Token :=
  links.flatMap fun link => link.token :: link.operand.tokens

theorem tokens_eq_first_append (tree : Tree) :
    tree.tokens = tree.first.tokens ++ spellLinks tree.links := by
  induction tree with
  | binary operator token left right ihLeft ihRight =>
      simp [tokens, first, links, spellLinks, ihLeft, ihRight]
  | _ => simp [first, links, spellLinks]

theorem priority_lt_level {tree : Tree} (ordered : tree.Ordered) :
    ∀ link ∈ tree.links, link.operator.priority < tree.level := by
  induction tree with
  | binary operator token left right ihLeft ihRight =>
      rcases ordered with ⟨leftTight, rightTight, leftOrdered, rightOrdered⟩
      intro link member
      simp only [links, List.mem_append, List.mem_cons] at member
      simp only [level]
      rcases member with inLeft | rfl | inRight
      · have tighter := ihLeft leftOrdered link inLeft
        omega
      · exact Nat.lt_succ_self _
      · have tighter := ihRight rightOrdered link inRight
        omega
  | _ => simp [links]

theorem foldl_extend_binary {operator : BinaryOp} {links : List Link}
    (tighter : ∀ link ∈ links, link.operator.priority < operator.priority) (token : Token)
    (left right : Tree) :
    links.foldl (fun tree link => tree.extend link) (binary operator token left right) =
      binary operator token left (links.foldl (fun tree link => tree.extend link) right) := by
  induction links generalizing right with
  | nil => rfl
  | cons link rest ih =>
      rcases List.forall_mem_cons.mp tighter with ⟨linkTighter, restTighter⟩
      rw [List.foldl_cons, List.foldl_cons, ← ih restTighter, extend, if_pos linkTighter]

/-- An ordered tree comes of extending its first operand by its links. -/
theorem foldl_extend_first {tree : Tree} (ordered : tree.Ordered) :
    tree.links.foldl (fun tree link => tree.extend link) tree.first = tree := by
  induction tree with
  | binary operator token left right ihLeft ihRight =>
      rcases ordered with ⟨leftTight, rightTight, leftOrdered, rightOrdered⟩
      have tighter : ∀ link ∈ right.links, link.operator.priority < operator.priority := by
        intro link member
        have tighter := priority_lt_level rightOrdered link member
        omega
      rw [links, first, List.foldl_append, ihLeft leftOrdered, List.foldl_cons,
        extend_of_level_le leftTight, foldl_extend_binary tighter, ihRight rightOrdered]
  | _ => rfl

theorem written_first {tree : Tree} (written : tree.Written) : tree.first.Written := by
  induction tree with
  | binary operator token left right ih _ => exact ih written.2.2.1
  | _ => exact written

theorem ordered_first {tree : Tree} (ordered : tree.Ordered) : tree.first.Ordered := by
  induction tree with
  | binary operator token left right ih _ => exact ih ordered.2.2.1
  | _ => exact ordered

theorem first_of_level {tree : Tree} (tight : tree.level = 0) : tree.first = tree := by
  cases tree with
  | binary _ _ _ _ => cases tight
  | _ => rfl

theorem level_first (tree : Tree) : tree.first.level = 0 := by
  induction tree with
  | binary operator token left right ih _ => exact ih
  | _ => rfl

theorem proper_links {tree : Tree} (written : tree.Written) (ordered : tree.Ordered) :
    ∀ link ∈ tree.links, link.Proper := by
  induction tree with
  | binary operator token left right ihLeft ihRight =>
      rcases written with ⟨writes, plain, leftWritten, rightWritten⟩
      rcases ordered with ⟨_, _, leftOrdered, rightOrdered⟩
      intro link member
      simp only [links, List.mem_append, List.mem_cons] at member
      rcases member with inLeft | rfl | inRight
      · exact ihLeft leftWritten leftOrdered link inLeft
      · exact ⟨writes, plain, level_first right, written_first rightWritten,
          ordered_first rightOrdered⟩
      · exact ihRight rightWritten rightOrdered link inRight
  | _ => simp [links]

/-- The tree is the only ordered operand that its tokens can be the start of. -/
def Decodes (tree : Tree) : Prop :=
  ∀ (other : Tree) (rest otherRest : List Token),
    other.level = 0 → other.Written → other.Ordered →
      tree.tokens ++ rest = other.tokens ++ otherRest → tree = other ∧ rest = otherRest

/-- Tokens that do not start with a binary operator start with no link. -/
theorem eq_nil_of_spellLinks {links : List Link} {rest following : List Token}
    (proper : ∀ link ∈ links, link.Proper) (ends : ∀ token ∈ rest.head?, token.binary? = none)
    (same : rest = spellLinks links ++ following) : links = [] := by
  rcases links with _ | ⟨link, later⟩
  · rfl
  · have starts : rest.head? = some link.token := congrArg List.head? same
    have noOperator := ends link.token starts
    rw [(proper link (by simp)).writes] at noOperator
    cases noOperator

/-- Where no binary operator follows, links are determined by their tokens. -/
theorem eq_of_spellLinks {links others : List Link} {rest otherRest : List Token}
    (proper : ∀ link ∈ links, link.Proper) (decodes : ∀ link ∈ links, link.operand.Decodes)
    (otherProper : ∀ link ∈ others, link.Proper)
    (ends : ∀ token ∈ rest.head?, token.binary? = none)
    (otherEnds : ∀ token ∈ otherRest.head?, token.binary? = none)
    (same : spellLinks links ++ rest = spellLinks others ++ otherRest) :
    links = others ∧ rest = otherRest := by
  induction links generalizing others with
  | nil =>
      cases eq_nil_of_spellLinks otherProper ends same
      exact ⟨rfl, same⟩
  | cons link restLinks ih =>
      rcases List.forall_mem_cons.mp proper with ⟨linkProper, restProper⟩
      rcases List.forall_mem_cons.mp decodes with ⟨linkDecodes, restDecodes⟩
      rcases others with _ | ⟨other, following⟩
      · cases eq_nil_of_spellLinks proper otherEnds same.symm
      · rcases List.forall_mem_cons.mp otherProper with ⟨otherLink, followingProper⟩
        simp only [spellLinks, List.flatMap_cons, List.cons_append, List.append_assoc,
          List.cons.injEq] at same
        rcases same with ⟨sameToken, sameRest⟩
        rcases linkDecodes other.operand _ _ otherLink.tight otherLink.written otherLink.ordered
          sameRest with ⟨sameOperand, sameFollowing⟩
        rcases ih restProper restDecodes followingProper sameFollowing with ⟨rfl, rfl⟩
        have sameOperator : link.operator = other.operator := by
          have writes := linkProper.writes
          rw [sameToken, otherLink.writes] at writes
          exact (Option.some.inj writes).symm
        rcases link with ⟨operator, token, operand⟩
        rcases other with ⟨otherOperator, otherToken, otherOperand⟩
        simp only at sameToken sameOperand sameOperator
        rw [sameToken, sameOperand, sameOperator]
        exact ⟨rfl, rfl⟩

theorem eq_of_decodes {tree other : Tree} {rest otherRest : List Token} (written : tree.Written)
    (ordered : tree.Ordered) (decodesFirst : tree.first.Decodes)
    (decodesLinks : ∀ link ∈ tree.links, link.operand.Decodes) (otherWritten : other.Written)
    (otherOrdered : other.Ordered) (ends : ∀ token ∈ rest.head?, token.binary? = none)
    (otherEnds : ∀ token ∈ otherRest.head?, token.binary? = none)
    (same : tree.tokens ++ rest = other.tokens ++ otherRest) :
    tree = other ∧ rest = otherRest := by
  rw [tokens_eq_first_append tree, tokens_eq_first_append other, List.append_assoc,
    List.append_assoc] at same
  rcases decodesFirst other.first _ _ other.level_first (written_first otherWritten)
    (ordered_first otherOrdered) same with ⟨sameFirst, sameFollowing⟩
  rcases eq_of_spellLinks (proper_links written ordered) decodesLinks
    (proper_links otherWritten otherOrdered) ends otherEnds sameFollowing with
    ⟨sameLinks, sameRest⟩
  refine ⟨?_, sameRest⟩
  rw [← foldl_extend_first ordered, ← foldl_extend_first otherOrdered, sameFirst, sameLinks]

theorem decodes_atom {token : Token} (leaf : token.kind ≠ .punctuation) :
    (atom token).Decodes := by
  intro other rest otherRest tight otherWritten _ same
  cases other with
  | atom otherToken =>
      rcases List.cons.inj same with ⟨rfl, sameRest⟩
      exact ⟨rfl, sameRest⟩
  | unary otherOperator otherToken otherOperand =>
      rcases List.cons.inj same with ⟨rfl, _⟩
      exact absurd (Token.kind_of_unary? otherWritten.1) leaf
  | parens otherOpener otherInner otherCloser =>
      rcases List.cons.inj same with ⟨rfl, _⟩
      exact absurd (Token.kind_of_opens? otherWritten.1) leaf
  | binary _ _ _ _ => cases tight

theorem decodes_unary {operator : UnaryOp} {token : Token} {operand : Tree}
    (writes : token.unary? = some operator) (decodes : operand.Decodes) :
    (unary operator token operand).Decodes := by
  intro other rest otherRest tight otherWritten otherOrdered same
  cases other with
  | atom otherToken =>
      rcases List.cons.inj same with ⟨rfl, _⟩
      exact absurd (Token.kind_of_unary? writes) otherWritten
  | unary otherOperator otherToken otherOperand =>
      rcases List.cons.inj same with ⟨rfl, sameRest⟩
      rcases decodes otherOperand rest otherRest otherOrdered.1 otherWritten.2 otherOrdered.2
        sameRest with ⟨rfl, sameFollowing⟩
      cases writes.symm.trans otherWritten.1
      exact ⟨rfl, sameFollowing⟩
  | parens otherOpener otherInner otherCloser =>
      rcases List.cons.inj same with ⟨rfl, _⟩
      cases (Token.plain_of_unary? writes).opens.symm.trans otherWritten.1
  | binary _ _ _ _ => cases tight

theorem decodes_parens {opener closer : Token} {inner : Tree}
    (opens : opener.opens? = some .round) (closes : closer.closes? = some .round)
    (written : inner.Written) (ordered : inner.Ordered) (decodesFirst : inner.first.Decodes)
    (decodesLinks : ∀ link ∈ inner.links, link.operand.Decodes) :
    (parens opener inner closer).Decodes := by
  intro other rest otherRest tight otherWritten otherOrdered same
  cases other with
  | atom otherToken =>
      rcases List.cons.inj same with ⟨rfl, _⟩
      exact absurd (Token.kind_of_opens? opens) otherWritten
  | unary otherOperator otherToken otherOperand =>
      rcases List.cons.inj same with ⟨rfl, _⟩
      cases (Token.plain_of_unary? otherWritten.1).opens.symm.trans opens
  | parens otherOpener otherInner otherCloser =>
      rcases otherWritten with ⟨_, otherCloses, otherInnerWritten⟩
      rcases List.cons.inj same with ⟨rfl, sameRest⟩
      have sameInside : inner.tokens ++ (closer :: rest) =
          otherInner.tokens ++ (otherCloser :: otherRest) := by
        simpa using sameRest
      -- The closers are no operators, so the expression inside ends in front of them.
      rcases eq_of_decodes written ordered decodesFirst decodesLinks otherInnerWritten
        otherOrdered (by simp [Token.binary?_eq_none_of_closes? closes])
        (by simp [Token.binary?_eq_none_of_closes? otherCloses]) sameInside with
        ⟨rfl, sameFollowing⟩
      rcases List.cons.inj sameFollowing with ⟨rfl, sameAfter⟩
      exact ⟨rfl, sameAfter⟩
  | binary _ _ _ _ => cases tight

/-- The operands of an ordered tree can be told apart from their tokens. -/
theorem decodes_operands {tree : Tree} (written : tree.Written) (ordered : tree.Ordered) :
    tree.first.Decodes ∧ ∀ link ∈ tree.links, link.operand.Decodes := by
  induction tree with
  | atom token => exact ⟨decodes_atom written, by simp [links]⟩
  | unary operator token operand ih =>
      rcases ih written.2 ordered.2 with ⟨decodes, _⟩
      rw [first_of_level ordered.1] at decodes
      exact ⟨decodes_unary written.1 decodes, by simp [links]⟩
  | parens opener inner closer ih =>
      rcases written with ⟨opens, closes, innerWritten⟩
      rcases ih innerWritten ordered with ⟨decodesFirst, decodesLinks⟩
      exact ⟨decodes_parens opens closes innerWritten ordered decodesFirst decodesLinks,
        by simp [links]⟩
  | binary operator token left right ihLeft ihRight =>
      rcases written with ⟨_, _, leftWritten, rightWritten⟩
      rcases ordered with ⟨_, _, leftOrdered, rightOrdered⟩
      rcases ihLeft leftWritten leftOrdered with ⟨decodesFirst, decodesLeft⟩
      rcases ihRight rightWritten rightOrdered with ⟨decodesMiddle, decodesRight⟩
      refine ⟨decodesFirst, ?_⟩
      intro link member
      simp only [links, List.mem_append, List.mem_cons] at member
      rcases member with inLeft | rfl | inRight
      · exact decodesLeft link inLeft
      · exact decodesMiddle
      · exact decodesRight link inRight

/-- The ordered tree of tokens is unique. -/
theorem Spells.unique {tree other : Tree} {tokens : List Token} (spells : tree.Spells tokens)
    (otherSpells : other.Spells tokens) : other = tree := by
  rcases decodes_operands spells.written spells.ordered with ⟨decodesFirst, decodesLinks⟩
  have same : tree.tokens ++ [] = other.tokens ++ [] := by
    rw [spells.tokens_eq, otherSpells.tokens_eq]
  exact (eq_of_decodes spells.written spells.ordered decodesFirst decodesLinks otherSpells.written
    otherSpells.ordered (by simp) (by simp) same).1.symm

end Tree

end BlockCalc
