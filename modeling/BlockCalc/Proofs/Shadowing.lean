import BlockCalc.Proofs.Reach

/-!
# Shadowing

A block that declares a name before it mentions it otherwise leaves the bindings of that name
outside the block alone. Up to the declaration the name does not occur, so its bindings stay as they
are. From then on the innermost frame of the block binds it, and everything that is done to the name
is done to that frame or to frames of blocks inside, all of which are discarded.
-/

namespace BlockCalc

variable {σ α β : Type}

namespace Token

variable {token : Token}

theorem text_ne_of_isLet {keyword : Token} (isLet : keyword.isLet = true)
    (identifier : token.isIdentifier = true) : keyword.text ≠ token.text := by
  simp only [Token.isLet, isIdentifier, Bool.and_eq_true, Bool.not_eq_true', decide_eq_true_eq,
    beq_iff_eq] at isLet identifier
  intro same
  rw [← same, isLet.2] at identifier
  simp [identifier.1.1] at identifier

end Token

namespace Eval

/--
The action leaves the bindings of a name in all frames as they are. If it fails, possibly in frames
inside, these are still the outermost ones.
-/
def KeepsBindings (name : String) (action : Eval σ α) (session : Session σ)
    (results : α → Scope → Prop) : Prop :=
  Ensures action session
    (fun result after =>
      after.scope.bindings name = session.scope.bindings name ∧ results result after.scope)
    (fun _ stopped => session.scope.bindings name <:+ stopped.scope.bindings name)

/--
The action, run in a block, leaves a binding of the name there and the bindings in the frames
outside, `outer`, as they are. If it fails, these are still the outermost ones.
-/
def Shields (name : String) (outer : List (Option Value)) (action : Eval σ α)
    (session : Session σ) : Prop :=
  Ensures action session (fun _ after => ∃ value, after.scope.bindings name = some value :: outer)
    (fun _ stopped => outer <:+ stopped.scope.bindings name)

namespace KeepsBindings

variable {name : String} {action : Eval σ α} {session : Session σ} {results : α → Scope → Prop}

/-- Bindings of a name that is not used stay as they are. -/
theorem of_turnsTo {declared : List String}
    (turnsTo : TurnsTo (· ≠ name) declared action session results) :
    KeepsBindings name action session results := by
  apply turnsTo.mono
  · rintro result after ⟨turns, holds⟩
    exact ⟨turns.bindings_eq (not_not_intro rfl), holds⟩
  · intro failure stopped breaks
    exact breaks.bindings_suffix (not_not_intro rfl)

theorem bind {next : α → Eval σ β} {finally_ : β → Scope → Prop}
    (start : KeepsBindings name action session results)
    (continues : ∀ result after, results result after.scope →
      KeepsBindings name (next result) after finally_) :
    KeepsBindings name (action >>= next) session finally_ := by
  rw [KeepsBindings, ensures_bind]
  apply start.imp
  rintro result after ⟨same, holds⟩
  rw [← same]
  exact continues result after holds

theorem locate_bind {settings : Settings σ} {token : Token} {next : Location → Eval σ α}
    (keeps : ∀ location, KeepsBindings name (next location) session results) :
    KeepsBindings name (Eval.locate settings token >>= next) session results :=
  keeps _

theorem advance_bind {next : Unit → Eval σ α}
    (keeps : ∀ after : Session σ, KeepsBindings name (next ()) after results) :
    KeepsBindings name (Eval.advance >>= next) session results :=
  keeps { session with position := session.position + 1 }

/-- As long as the block does not bind the name, it is for the rest to shield the frames outside. -/
theorem shields {next : α → Eval σ β} {outer : List (Option Value)}
    (start : KeepsBindings name action session results)
    (unbound : session.scope.bindings name = none :: outer)
    (continues : ∀ result after, results result after.scope →
      after.scope.bindings name = none :: outer → Shields name outer (next result) after) :
    Shields name outer (action >>= next) session := by
  rw [Shields, ensures_bind]
  apply start.mono
  · rintro result after ⟨same, holds⟩
    exact continues result after holds (same.trans unbound)
  · intro failure stopped suffix
    rw [unbound] at suffix
    exact (List.suffix_cons none outer).trans suffix

end KeepsBindings

section Block

variable {settings : Settings σ} (quiet : settings.hooks = .none) {keyword name : Token}
  {closer : Option Token} {front later : Forest} {phase : Phase} {session : Session σ}
  {outer : List (Option Value)}

include quiet

/-- Where the block binds a name, nothing in the rest of the block gets past it. -/
theorem shields_of_bound {bound : String} {value : Value}
    (uses : phase.Uses (Usable (fun _ => True) session.scope.names))
    (binds : session.scope.bindings bound = [] ++ some value :: outer) :
    Shields bound outer (contents settings .statements phase later closer) session := by
  have everyName : ∀ token ∈ later.tokens, token.kind = .word → True := fun _ _ _ => trivial
  apply (turnsTo_contents quiet (turnsTo_read quiet everyName uses) closer).mono
  · rintro _ after ⟨turns, _⟩
    rcases turns.shielded binds with ⟨changed, new, still, noneInside⟩
    rw [List.eq_nil_of_length_eq_zero noneInside] at still
    exact ⟨new, still⟩
  · intro failure stopped breaks
    exact breaks.shielded binds

/-- A declaration binds its name in the block. -/
theorem shields_of_naming (naming : phase.isNaming = true) (identifier : name.isIdentifier = true)
    (unbound : session.scope.bindings name.text = none :: outer) :
    Shields name.text outer (contents settings .statements phase (.leaf name later) closer)
      session := by
  cases phase with
  | naming keyword =>
      rw [Shields, contents_leaf, ensures_bind, ensures_advance, ensures_bind]
      rw [Ensures, (Does.declares keyword identifier).run_eq]
      apply (ensures_declare_scope quiet name.text _ _).of_infallible.bind
      intro _ after declares
      have has := session.scope.has_declare name.text
      have binds := session.scope.bindings_declare name.text name.text
      rw [if_pos rfl, unbound] at binds
      rw [← declares] at has binds
      exact shields_of_bound quiet ⟨trivial, Scope.has_iff_exists_home.mp has⟩ binds
  | _ => cases naming

/-- Before a name is declared in a block, the block does not mention it. -/
theorem shields_of_unmentioned (isLet : keyword.isLet = true)
    (identifier : name.isIdentifier = true)
    (unmentioned : ∀ token ∈ front.tokens, token.kind = .word → token.text ≠ name.text)
    (unbound : session.scope.bindings name.text = none :: outer) :
    Shields name.text outer (contents settings .statements (.statement .void)
      (front.append (.leaf keyword (.leaf name later))) closer) session := by
  have uses : (Phase.statement .void).Uses (Usable (· ≠ name.text) session.scope.names) := trivial
  have otherWord : keyword.kind = .word → keyword.text ≠ name.text := fun _ =>
    Token.text_ne_of_isLet isLet identifier
  rw [contents_append]
  apply (KeepsBindings.of_turnsTo (turnsTo_read quiet unmentioned uses)).shields unbound
  intro phase reached remains stillUnbound
  rw [contents_leaf, ← bind_assoc]
  apply (KeepsBindings.of_turnsTo (.advance_bind fun advanced sameScope =>
    turnsTo_readToken quiet .statements otherWord (sameScope ▸ remains.uses))).shields stillUnbound
  intro next after follows unboundYet
  exact shields_of_naming quiet (follows.isNaming.trans isLet) identifier unboundYet

end Block

end Eval

/--
What stands in a block declares a name, outside its inner brackets, before it mentions the name
otherwise.
-/
inductive Forest.Shadows (bound : String) : Forest → Prop where
  | declares {front later : Forest} {keyword name : Token}
      (unmentioned : ∀ token ∈ front.tokens, token.kind = .word → token.text ≠ bound)
      (isLet : keyword.isLet = true) (identifier : name.isIdentifier = true)
      (sameName : name.text = bound) :
      Shadows bound (front.append (.leaf keyword (.leaf name later)))

namespace Eval

section Blocks

variable {settings : Settings σ} (quiet : settings.hooks = .none) {inner : Forest} {bound : String}
  (shadows : inner.Shadows bound)

include quiet shadows

theorem shields_of_shadows (closer : Option Token) {session : Session σ}
    {outer : List (Option Value)} (unbound : session.scope.bindings bound = none :: outer) :
    Shields bound outer (contents settings .statements (.statement .void) inner closer)
      session := by
  cases shadows with
  | declares unmentioned isLet identifier sameName =>
      subst sameName
      exact shields_of_unmentioned quiet isLet identifier unmentioned unbound

/-- A block that shadows a name changes no binding of the name outside the block. -/
theorem keepsBindings_enclosed (closer : Option Token) (location : Location) (group : Group)
    (session : Session σ) :
    KeepsBindings bound (enclosed settings location group inner closer .curly) session
      fun _ _ => True := by
  apply (ensures_enterBlock_scope quiet location session).of_infallible.bind
  intro _ entered enters
  have unbound : entered.scope.bindings bound = none :: session.scope.bindings bound := by
    rw [enters, Scope.bindings_enter]
  rw [ensures_bind]
  apply (shields_of_shadows quiet shadows closer unbound).mono
  · rintro value last ⟨new, shielded⟩
    rw [ensures_bind]
    apply (ensures_exitBlock_scope quiet location last).mono
    · rintro _ after ⟨frame, left⟩
      rw [Scope.bindings_of_exit left] at shielded
      exact ⟨(List.cons.inj shielded).2, trivial⟩
    · rintro failure _ rfl
      exact shielded ▸ List.suffix_cons (some new) _
  · intro failure stopped shielded
    exact shielded

theorem keepsBindings_read_block (enclosure : Enclosure) (opener : Token) (closer : Option Token)
    {phase : Phase} {allowed : String → Prop} (uses : phase.Uses allowed) (session : Session σ) :
    KeepsBindings bound (read settings enclosure (.nest .curly opener inner closer .nil) phase)
      session fun _ _ => True := by
  rw [read_nest]
  apply (KeepsBindings.of_turnsTo (turnsTo_beforeBracket enclosure opener uses)).bind
  rintro ⟨pending, unary⟩ ready usesPending
  apply KeepsBindings.locate_bind
  intro location
  apply KeepsBindings.advance_bind
  intro advanced
  apply (KeepsBindings.of_turnsTo (turnsTo_openGroup .curly location)).bind
  intro group opened _
  apply (keepsBindings_enclosed quiet shadows closer location group opened).bind
  intro value left _
  apply (KeepsBindings.of_turnsTo
    (turnsTo_afterBracket .curly usesPending unary value location)).bind
  intro next last _
  exact ⟨rfl, trivial⟩

end Blocks

end Eval

namespace Session

/--
Where a block declares a name before it mentions it otherwise, no binding of the name outside the
block is changed by the block: when it is left all of them are as before it, and if it fails the one
at the top level is, when the evaluation has put the session in order.
-/
theorem block_shadows {settings : Settings σ} (quiet : settings.hooks = .none)
    {session : Session σ} {text : String} {moment : Moment σ}
    (comes : session.Comes settings text moment) {opener : Token} {closer : Option Token}
    {inner rest : Forest}
    (ahead : moment.ahead = .nest .curly opener inner closer rest) {bound : String}
    (shadows : inner.Shadows bound) :
    let outcome := Eval.read settings moment.enclosure (.nest .curly opener inner closer .nil)
      moment.phase moment.session
    (∀ next after, outcome = .ok next after →
      after.scope.bindings bound = moment.session.scope.bindings bound ∧
      after.scope.has bound = moment.session.scope.has bound) ∧
    (∀ failure stopped, outcome = .error failure stopped →
      ∃ reported last, session.parse settings text = (.error reported, last) ∧
        reported.cause = failure.cause ∧ last.scope.blocks = [] ∧
        last.scope.top.get? bound = moment.session.scope.top.get? bound) := by
  intro outcome
  have shadowed := Eval.keepsBindings_read_block quiet shadows moment.enclosure opener closer
    (comes.uses quiet) moment.session
  constructor
  · intro next after ran
    have same := (shadowed.of_ok ran).1
    exact ⟨same, by rw [Scope.has_eq_any_bindings, same, Scope.has_eq_any_bindings]⟩
  · intro failure stopped failed
    have split : moment.ahead = (Forest.nest .curly opener inner closer .nil).append rest := ahead
    have failedAhead : Eval.read settings moment.enclosure moment.ahead moment.phase
        moment.session = .error failure stopped := by
      rw [split, Eval.read_append, Eval.bind_of_error failed]
    have sameTop := Scope.top_eq_of_suffix (shadowed.of_error failed)
    exact ⟨stopped.report failure, stopped.unwind.dropText,
      comes.parse_of_error quiet failedAhead, rfl, rfl, sameTop⟩

/-- Whether a text is a block that declares a name first and is read up to a division by zero. -/
def dividesBehindDeclaration (settings : Settings σ) (session : Session σ) (name text : String) :
    Bool :=
  match Forest.ofTokens (session.feed text).lexer.tokens with
  | .ok (.nest .curly opener (.leaf keyword (.leaf declared later)) closer .nil) =>
      keyword.isLet && declared.isIdentifier && declared.text == name &&
        match Eval.read settings .statements
            (.nest .curly opener (.leaf keyword (.leaf declared later)) closer .nil)
            (.statement .void) ((session.feed text).prepare.begun settings) with
        | .ok _ _ => false
        | .error failure _ => failure.cause == .divideByZero
  | _ => false

theorem block_shadows_where_it_fails :
    let settings : Settings Unit := {}
    let session : Session Unit :=
      { fresh () with scope := { top := Table.empty.insert "x" (.integer 1) } }
    ∃ failure last,
      session.parse settings "\x7b let x; x = 2; 1 / 0 \x7d" = (.error failure, last) ∧
      failure.cause = .divideByZero ∧ last.scope.blocks = [] ∧
        last.scope.top.get? "x" = some (.integer 1) := by
  intro settings session
  have divides : dividesBehindDeclaration settings session "x" "\x7b let x; x = 2; 1 / 0 \x7d" := by
    decide +kernel
  simp only [dividesBehindDeclaration] at divides
  split at divides
  · rename_i opener keyword name later closer found
    simp only [Bool.and_eq_true, beq_iff_eq] at divides
    rcases divides with ⟨⟨⟨isLet, identifier⟩, sameName⟩, fails⟩
    split at fails
    · cases fails
    · rename_i failure stopped failed
      rw [beq_iff_eq] at fails
      have comes : session.Comes settings "\x7b let x; x = 2; 1 / 0 \x7d"
          ⟨.statements, .statement .void, _,
            (session.feed "\x7b let x; x = 2; 1 / 0 \x7d").prepare.begun settings⟩ :=
        ⟨_, found, .refl _⟩
      have nothing : ∀ token ∈ Forest.nil.tokens, token.kind = .word → token.text ≠ "x" := by
        simp [Forest.tokens]
      have shadows : (Forest.leaf keyword (.leaf name later)).Shadows "x" :=
        .declares nothing isLet identifier sameName
      rcases (block_shadows rfl comes rfl shadows).2 failure stopped failed with
        ⟨reported, last, parses, sameCause, unwound, sameTop⟩
      exact ⟨reported, last, parses, sameCause.trans fails, unwound, sameTop⟩
  · cases divides

end Session

end BlockCalc
