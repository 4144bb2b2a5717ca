import BlockCalc.Proofs.Charges

/-!
# What reading costs

A forest holds the charges of its tokens: a `let` pays for the declaration of the name behind it,
the braces of a block for entering and leaving it, an operator for its reduction, and any other word
for an assignment to it. While the forest is read, each charge passes to the phase and from there to
what waits, until it is paid or given up.
-/

namespace BlockCalc

variable {σ : Type}

/-- The charge of a token that is neither a bracket nor the keyword of a declaration. -/
def Token.charge? (buffer : Buffer) (token : Token) : Option Charge :=
  match token.kind with
  | .word => some (.assign token.text (buffer.place token))
  | _ => token.binary?.map (.reduce · (buffer.place token))

/-- The charge of a declaration whose keyword stands before the forest. -/
def Forest.declaration? (buffer : Buffer) : Forest → Option Charge
  | .leaf name _ => some (.declare name.text (buffer.place name))
  | _ => none

/-- The charge of a token before the forest `rest`. -/
def Token.chargeBefore? (buffer : Buffer) (token : Token) (rest : Forest) : Option Charge :=
  if token.isLet then rest.declaration? buffer else token.charge? buffer

theorem Token.chargeBefore?_of_word {token : Token} (word : token.kind = .word)
    (noKeyword : token.isLet = false) (buffer : Buffer) (rest : Forest) :
    token.chargeBefore? buffer rest = some (.assign token.text (buffer.place token)) := by
  simp [chargeBefore?, noKeyword, charge?, word]

theorem Token.chargeBefore?_of_binary {token : Token} {operator : BinaryOp}
    (stands : token.binary? = some operator) (buffer : Buffer) (rest : Forest) :
    token.chargeBefore? buffer rest = some (.reduce operator (buffer.place token)) := by
  simp [chargeBefore?, isLet, charge?, kind_of_binary? stands, stands]

/-- The charges of a bracket and of what is inside: those of the braces enclose the others. -/
def Bracket.charges (location : Location) (inside : List Charge) : Bracket → List Charge
  | .round => inside
  | .curly => .enterScope location :: (inside ++ [.exitScope location])

/-- The charges of the tokens of a forest, in the order of the tokens. -/
def Forest.charges (buffer : Buffer) : Forest → List Charge
  | .nil => []
  | .leaf token rest => (token.chargeBefore? buffer rest).toList ++ rest.charges buffer
  | .nest bracket opener inner _ rest =>
      bracket.charges (buffer.place opener) (inner.charges buffer) ++ rest.charges buffer

/-- The charges that a phase holds before a forest. -/
def Phase.charges (buffer : Buffer) (ahead : Forest) : Phase → Multiset Charge
  | .naming _ => (ahead.declaration? buffer).toList
  | .named name => {.assign name.text (buffer.place name)}
  | .operand pending _ => waiting pending
  | .operator pending term => waiting pending + term.charges
  | .statement _ | .block _ _ => 0

namespace Eval

variable {settings : Settings σ} {buffer : Buffer}

section Charging

variable {session : Session σ} {enclosure : Enclosure} {token : Token} {phase : Phase}
  {pending : List Pending} {unary : List Token} {term : Term}

/-- A unary operator keeps a variable from becoming a target. -/
theorem charges_wrapped_le (site : Token → Location) (unary : List Token) (term : Term) :
    (term.wrapped site unary).charges ≤ term.charges := by
  induction unary generalizing term with
  | nil => exact le_rfl
  | cons token outer ih =>
      simp only [Term.wrapped]
      split
      · exact (ih _).trans (Multiset.zero_le _)
      · exact ih term

theorem waiting_of_awaits {upcoming : Option BinaryOp}
    (awaits : phase.Awaits enclosure upcoming pending unary) (ahead : Forest) :
    waiting pending = phase.charges buffer ahead := by
  cases awaits with
  | begins begins => cases begins <;> rfl
  | operand pending unary => rfl

variable (sameSource : session.source = buffer.source)
  (sameFile : settings.fileName = buffer.fileName)

include sameSource sameFile

/-- A word that is a number may never become a target. -/
theorem charges_of_isTerm (isTerm : token.IsTerm settings session term) :
    term.charges ≤ {.assign token.text (buffer.place token)} := by
  cases isTerm with
  | number starts written => exact Multiset.zero_le _
  | «variable» noNumber noLet visible =>
      rw [Session.site_eq_place sameSource sameFile]
      exact le_rfl

theorem charges_of_offers {upcoming : Option BinaryOp}
    (offers : phase.Offers settings session upcoming pending term) (ahead : Forest) :
    waiting pending + term.charges ≤ phase.charges buffer ahead := by
  cases offers with
  | operator pending term => exact le_rfl
  | named isTerm => simpa [Phase.charges] using charges_of_isTerm sameSource sameFile isTerm
  | block value location follows => exact le_rfl

/-- What a phase behind a token holds comes from the token and from the phase before it. -/
theorem Leads.charges_le {next : Phase} (leads : Leads settings session enclosure token phase next)
    (rest : Forest) :
    next.charges buffer rest ≤
      (token.chargeBefore? buffer rest).toList + phase.charges buffer (.leaf token rest) := by
  cases leads with
  | ends separator yields inStatements => exact Multiset.zero_le _
  | keyword isLet begins =>
      rw [Phase.charges, Token.chargeBefore?, if_pos isLet]
      exact Multiset.le_add_right _ _
  | @string pending unary awaits string =>
      rw [← waiting_of_awaits awaits, Phase.charges, add_comm]
      gcongr
      exact (charges_wrapped_le _ unary _).trans (Multiset.zero_le _)
  | @word pending unary term awaits word isTerm =>
      rw [← waiting_of_awaits awaits, Phase.charges, add_comm,
        Token.chargeBefore?_of_word word isTerm.isLet_eq_false]
      gcongr
      exact (charges_wrapped_le _ unary term).trans
        (charges_of_isTerm sameSource sameFile isTerm)
  | unary awaits punctuation isUnary =>
      rw [← waiting_of_awaits awaits]
      exact Multiset.le_add_left _ _

end Charging

section Tokens

theorem spends_afterBracket (bracket : Bracket) (pending : List Pending) (unary : List Token)
    (value : Value) (location : Location) (rest : Forest) :
    Spends buffer (afterBracket settings bracket pending unary value location)
      (waiting pending) (Phase.charges buffer rest) := by
  intro session same
  rw [ensures_afterBracket]
  refine ⟨same, [], .refl _, ?_⟩
  have wrapped : ((Term.value value location).wrapped (session.site settings) unary).charges ≤ 0 :=
    charges_wrapped_le _ unary _
  simp only [Phase.closing, Multiset.coe_nil, zero_add]
  split
  · exact Multiset.zero_le _
  · simpa [Phase.charges] using wrapped

theorem spends_beforeBracket (enclosure : Enclosure) (opener : Token) (phase : Phase)
    (ahead : Forest) :
    Spends buffer (beforeBracket settings enclosure opener phase) (phase.charges buffer ahead)
      fun before => waiting before.1 := by
  intro session same
  apply Ensures.beforeBracket
  · intro pending unary awaits
    exact Spends.pure (waiting_of_awaits awaits ahead).le session same
  · intro failure _
    exact ⟨[], .refl _, Multiset.zero_le _⟩

variable (quiet : settings.hooks = .none)

include quiet

theorem spends_declare (name : String) (location : Location) (rest : Multiset Charge) :
    Spends buffer (declare settings name location) (.declare name location ::ₘ rest)
      fun _ => rest := by
  apply Spends.get_bind
  intro session
  apply Spends.idle_bind (idles_setScope _)
  intro _
  exact spends_record quiet rfl rest

theorem spends_finish (next : Option Token) (phase : Phase) (ahead : Forest) :
    Spends buffer (finish settings next phase) (phase.charges buffer ahead) fun _ => 0 := by
  intro session same
  apply Ensures.finish
  · intro value _
    exact Spends.pure (Multiset.zero_le _) session same
  · intro failure _
    exact ⟨[], .refl _, Multiset.zero_le _⟩
  · rintro pending term rfl
    exact spends_collapse quiet pending term session same

variable (sameFile : settings.fileName = buffer.fileName)

include sameFile

/-- What a token does not pay for passes to the phase behind it. -/
theorem spends_readToken (enclosure : Enclosure) (token : Token) (phase : Phase)
    (rest : Forest) :
    Spends buffer (readToken settings enclosure token phase)
      ((token.chargeBefore? buffer rest).toList + phase.charges buffer (.leaf token rest))
      (Phase.charges buffer rest) := by
  intro session same
  have site := Session.site_eq_place same sameFile
  apply Ensures.readToken
  intro deed does
  cases does with
  | turns leads => exact Spends.pure (leads.charges_le same sameFile rest) session same
  | refuses _ => exact ⟨[], .refl _, Multiset.zero_le _⟩
  | @pushes _ pending term operator offers stands =>
      rw [site, Token.chargeBefore?_of_binary stands, Option.toList_some, Multiset.coe_singleton,
        Multiset.singleton_add]
      have enough := charges_of_offers same sameFile offers (.leaf token rest)
      have pushes : Spends buffer (pushOperator settings operator (buffer.place token) pending term)
          _ waiting := (spends_pushOperator quiet operator _ pending term).mono
        (Multiset.cons_le_cons _ enough)
      refine pushes.bind (fun pushed => ?_) session same
      exact .pure le_rfl
  | declares keyword identifier =>
      have word := Token.kind_of_isIdentifier identifier
      have noLet := Token.isLet_eq_false_of_isIdentifier identifier
      rw [site, Token.chargeBefore?_of_word word noLet, add_comm]
      -- The keyword has paid for the declaration, and the name may become a target.
      have declares : Spends buffer (declare settings token.text (buffer.place token)) _ _ :=
        spends_declare quiet _ _ {.assign token.text (buffer.place token)}
      refine declares.bind (fun _ => ?_) session same
      exact .pure le_rfl
  | @concludes pending term separator =>
      rw [add_comm]
      refine (spends_collapse quiet pending term).bind_frame (fun _ => ?_) session same
      exact .idle_bind (idles_endExpression enclosure) fun _ => .pure (Multiset.zero_le _)

section Brackets

variable {inner : Forest} (reads : ∀ enclosure phase,
  Spends buffer (read settings enclosure inner phase)
    (phase.charges buffer inner + inner.charges buffer) (Phase.charges buffer .nil))

include reads

omit sameFile in
theorem spends_contents (enclosure : Enclosure) (phase : Phase) (closer : Option Token) :
    Spends buffer (contents settings enclosure phase inner closer)
      (phase.charges buffer inner + inner.charges buffer) fun _ => 0 := by
  apply (reads enclosure phase).bind
  intro last
  apply (spends_finish quiet closer last .nil).bind
  intro value
  exact .idle_bind (idles_closeGroup closer) fun _ => .pure le_rfl

omit sameFile in
/-- The braces pay for entering and leaving the block between them. -/
theorem spends_enclosed (location : Location) (group : Group) (closer : Option Token)
    (bracket : Bracket) :
    Spends buffer (enclosed settings location group inner closer bracket)
      (bracket.charges location (inner.charges buffer)) fun _ => 0 := by
  cases bracket with
  | round =>
      have inside :=
        spends_contents quiet reads (.parenthesis group) (.operand [] []) closer
      rw [Phase.charges, waiting_nil, zero_add] at inside
      exact inside
  | curly =>
      rw [Bracket.charges, ← Multiset.cons_coe, ← Multiset.coe_add]
      apply (spends_enterBlock quiet location _).bind
      intro _
      have inside := spends_contents quiet reads .statements (.statement .void) closer
      rw [Phase.charges, zero_add] at inside
      apply inside.bind_frame
      intro value
      rw [zero_add]
      apply (spends_exitBlock quiet location).bind
      intro _
      exact .pure le_rfl

end Brackets

/-- What a phase and the forest behind it hold pays for reading the forest. -/
theorem spends_read (enclosure : Enclosure) (forest : Forest) (phase : Phase) :
    Spends buffer (read settings enclosure forest phase)
      (phase.charges buffer forest + forest.charges buffer) (Phase.charges buffer .nil) := by
  induction forest generalizing enclosure phase with
  | nil => exact .pure (by simp [Forest.charges])
  | leaf token rest ih =>
      have budget :
          phase.charges buffer (.leaf token rest) + (Forest.leaf token rest).charges buffer =
          ((token.chargeBefore? buffer rest).toList + phase.charges buffer (.leaf token rest)) +
            (rest.charges buffer : Multiset Charge) := by
        rw [Forest.charges, ← Multiset.coe_add]
        abel
      rw [read_leaf, budget]
      apply Spends.idle_bind idles_advance
      intro _
      apply (spends_readToken quiet sameFile enclosure token phase rest).bind_frame
      intro next
      exact ih enclosure next
  | nest bracket opener inner closer rest ihInner ihRest =>
      rw [read_nest, Forest.charges, ← Multiset.coe_add]
      apply (spends_beforeBracket enclosure opener phase _).bind_frame
      rintro ⟨pending, unary⟩
      apply Spends.locate_bind sameFile
      apply Spends.idle_bind idles_advance
      intro _
      apply Spends.idle_bind (idles_openGroup settings bracket _)
      intro group
      rw [add_left_comm]
      apply (spends_enclosed quiet ihInner _ group closer bracket).bind_frame
      intro value
      rw [zero_add]
      apply (spends_afterBracket bracket pending unary value _ rest).bind_frame
      intro next
      exact ihRest enclosure next

/-- The charges of the tokens pay for all steps. -/
theorem spends_statements (forest : Forest) :
    Spends buffer (statements settings forest) (forest.charges buffer) fun _ => 0 := by
  have reads := spends_read quiet sameFile .statements forest (.statement .void)
  rw [Phase.charges, zero_add] at reads
  apply reads.bind
  intro last
  exact spends_finish quiet none last .nil

end Tokens

end Eval

end BlockCalc
