import BlockCalc.Proofs.Ledger
import BlockCalc.Proofs.Located

/-!
# How long a log can be

Each charge of a program is borne by a token of its own, so no two steps of an evaluation are
charged to the same token. Hence a log has at most one entry for every token and one for the start
of the evaluation, wherever the evaluation ends.
-/

namespace BlockCalc

variable {σ : Type}

section Lists

variable {α β γ : Type} {related : α → β → Prop} {others : β → γ → Prop}

/-- A part of one list is related to a part of the other. -/
theorem exists_forall₂_of_sublist {part whole : List α} {partners : List β}
    (within : part.Sublist whole) (all : List.Forall₂ related whole partners) :
    ∃ chosen, List.Forall₂ related part chosen ∧ chosen.Sublist partners := by
  induction within generalizing partners with
  | slnil => exact ⟨[], .nil, List.nil_sublist partners⟩
  | cons first _ ih =>
      cases all with
      | cons _ rest =>
          rcases ih rest with ⟨chosen, areRelated, isPart⟩
          exact ⟨chosen, areRelated, isPart.cons _⟩
  | cons_cons first _ ih =>
      cases all with
      | cons isRelated rest =>
          rcases ih rest with ⟨chosen, areRelated, isPart⟩
          exact ⟨_ :: chosen, .cons isRelated areRelated, isPart.cons_cons _⟩

theorem exists_forall₂_of_subperm {part whole : List α} {partners : List β}
    (within : part.Subperm whole) (all : List.Forall₂ related whole partners) :
    ∃ chosen, List.Forall₂ related part chosen ∧ chosen.Subperm partners := by
  rcases List.subperm_iff.mp within with ⟨ordered, isPerm, isPart⟩
  rcases List.perm_comp_forall₂ isPerm all with ⟨reordered, areRelated, isReordered⟩
  rcases exists_forall₂_of_sublist isPart areRelated with ⟨chosen, chosenRelated, chosenPart⟩
  exact ⟨chosen, chosenRelated, chosenPart.subperm.trans isReordered.subperm⟩

theorem forall₂_comp {first : List α} {second : List β} {third : List γ}
    (left : List.Forall₂ related first second) (right : List.Forall₂ others second third) :
    List.Forall₂ (fun one other => ∃ middle, related one middle ∧ others middle other)
      first third := by
  induction left generalizing third with
  | nil =>
      cases right
      exact .nil
  | cons isRelated _ ih =>
      cases right with
      | cons isOther rest => exact .cons ⟨_, isRelated, isOther⟩ (ih rest)

end Lists

/-- The token at an index bears a charge. -/
inductive Charge.At (buffer : Buffer) : Charge → Nat → Prop where
  /-- The keyword of a declaration bears it, right before the name. -/
  | declare {index : Nat} {keyword name : Token}
      (here : buffer.tokens[index]? = some keyword) (declares : keyword.isLet = true)
      (next : buffer.tokens[index + 1]? = some name) :
      At buffer (.declare name.text (buffer.place name)) index
  | enterScope {index : Nat} {opener : Token} (here : buffer.tokens[index]? = some opener)
      (opens : opener.opens? = some .curly) : At buffer (.enterScope (buffer.place opener)) index
  /-- The closer bears it, behind its opener and whatever matched brackets are between them. -/
  | exitScope {before behind : List Token} {opener closer : Token} {inner : Forest}
      (split : buffer.tokens = before ++ opener :: (inner.tokens ++ closer :: behind))
      (opens : opener.opens? = some .curly) (matched : inner.Matched)
      (closes : closer.closes? = some .curly) :
      At buffer (.exitScope (buffer.place opener)) (before.length + inner.tokens.length + 1)
  | reduce {index : Nat} {token : Token} {operator : BinaryOp}
      (here : buffer.tokens[index]? = some token) (stands : token.binary? = some operator) :
      At buffer (.reduce operator (buffer.place token)) index
  | assign {index : Nat} {token : Token} (here : buffer.tokens[index]? = some token)
      (word : token.kind = .word) : At buffer (.assign token.text (buffer.place token)) index

namespace Forest

variable {buffer : Buffer}

theorem at_chargeBefore? {before behind : List Token} {token : Token} {rest : Forest}
    (split : buffer.tokens = before ++ token :: (rest.tokens ++ behind)) {charge : Charge}
    (charged : token.chargeBefore? buffer rest = some charge) :
    charge.At buffer before.length := by
  have here : buffer.tokens[before.length]? = some token := by simp [split]
  simp only [Token.chargeBefore?] at charged
  split at charged
  · rename_i declares
    cases rest with
    | leaf name others =>
        cases charged
        exact .declare here declares (by simp [split, tokens])
    | nil => cases charged
    | nest bracket opener inner closer others => cases charged
  · simp only [Token.charge?] at charged
    split at charged
    · rename_i word
      cases charged
      exact .assign here word
    · rcases Option.map_eq_some_iff.mp charged with ⟨operator, stands, rfl⟩
      exact .reduce here stands

/-- The braces around a forest bear charges, if the tokens inside bear those of the forest. -/
theorem exists_bracket_at {bracket : Bracket} {opener closer : Token} {inner : Forest}
    {before behind : List Token}
    (split : buffer.tokens = (before ++ [opener]) ++ (inner.tokens ++ closer :: behind))
    (opens : opener.opens? = some bracket) (closes : closer.closes? = some bracket)
    (matched : inner.Matched) {inside : List Nat}
    (insideAt : List.Forall₂ (Charge.At buffer) (inner.charges buffer) inside)
    (within : inside.Sublist
      (List.range' (before ++ [opener]).length inner.tokens.length)) :
    ∃ indices : List Nat,
      List.Forall₂ (Charge.At buffer)
        (bracket.charges (buffer.place opener) (inner.charges buffer)) indices ∧
      indices.Sublist (List.range' before.length 1 ++
        List.range' (before.length + 1) inner.tokens.length ++
          List.range' (before.length + 1 + inner.tokens.length) 1) := by
  rw [List.length_append, List.length_singleton] at within
  cases bracket with
  | round =>
      refine ⟨inside, insideAt, ?_⟩
      exact within.trans ((List.sublist_append_right _ _).trans (List.sublist_append_left _ _))
  | curly =>
      have atOpener : Charge.At buffer (.enterScope (buffer.place opener)) before.length :=
        .enterScope (by simp [split]) opens
      have atCloser : Charge.At buffer (.exitScope (buffer.place opener))
          (before.length + 1 + inner.tokens.length) := by
        rw [Nat.add_right_comm]
        exact .exitScope (by simpa using split) opens matched closes
      refine ⟨before.length :: (inside ++ [before.length + 1 + inner.tokens.length]),
        .cons atOpener (List.rel_append insideAt (.cons atCloser .nil)), ?_⟩
      exact (within.append (List.Sublist.refl _)).cons_cons _

/-- Each charge of a forest is borne by a token of its own. -/
theorem exists_charges_at {forest : Forest} (matched : forest.Matched) {before behind : List Token}
    (split : buffer.tokens = before ++ (forest.tokens ++ behind)) :
    ∃ indices : List Nat, List.Forall₂ (Charge.At buffer) (forest.charges buffer) indices ∧
      indices.Sublist (List.range' before.length forest.tokens.length) := by
  induction forest generalizing before behind with
  | nil => exact ⟨[], .nil, List.nil_sublist _⟩
  | leaf token rest ih =>
      have own : ∃ indices : List Nat,
          List.Forall₂ (Charge.At buffer) (token.chargeBefore? buffer rest).toList indices ∧
            indices.Sublist [before.length] := by
        cases charged : token.chargeBefore? buffer rest with
        | none => exact ⟨[], .nil, List.nil_sublist _⟩
        | some charge =>
            exact ⟨[before.length], .cons (at_chargeBefore? split charged) .nil, .refl _⟩
      rcases own with ⟨first, firstAt, firstWithin⟩
      have splitRest : buffer.tokens = (before ++ [token]) ++ (rest.tokens ++ behind) := by
        simp [split, tokens]
      rcases ih matched.2.2 splitRest with ⟨others, othersAt, othersWithin⟩
      refine ⟨first ++ others, List.rel_append firstAt othersAt, ?_⟩
      rw [tokens, List.length_cons, List.range'_succ, ← List.singleton_append]
      exact firstWithin.append (by simpa using othersWithin)
  | nest bracket opener inner closer rest ihInner ihRest =>
      rcases matched with ⟨opens, ⟨closer, rfl, closes⟩, innerMatched, restMatched⟩
      have splitInner : buffer.tokens =
          (before ++ [opener]) ++ (inner.tokens ++ closer :: (rest.tokens ++ behind)) := by
        simp [split, tokens]
      have splitRest : buffer.tokens =
          (before ++ opener :: (inner.tokens ++ [closer])) ++ (rest.tokens ++ behind) := by
        simp [split, tokens]
      rcases ihInner innerMatched splitInner with ⟨inside, insideAt, insideWithin⟩
      rcases ihRest restMatched splitRest with ⟨others, othersAt, othersWithin⟩
      rcases exists_bracket_at splitInner opens closes innerMatched insideAt insideWithin with
        ⟨first, firstAt, firstWithin⟩
      refine ⟨first ++ others, List.rel_append firstAt othersAt, ?_⟩
      have length : (nest bracket opener inner closer rest).tokens.length =
          1 + (inner.tokens.length + (1 + rest.tokens.length)) := by
        simp only [tokens, Option.toList_some, List.length_cons, List.length_append,
          List.length_nil]
        omega
      have afterwards : (before ++ opener :: (inner.tokens ++ [closer])).length =
          before.length + 1 + inner.tokens.length + 1 := by
        simp only [List.length_cons, List.length_append, List.length_nil]
        omega
      rw [afterwards] at othersWithin
      rw [length, ← List.range'_append_1, ← List.range'_append_1, ← List.range'_append_1,
        ← List.append_assoc, ← List.append_assoc]
      exact (firstWithin.append othersWithin)

end Forest

/-- The entry is charged to the token at an index. -/
def Entry.ChargedTo (buffer : Buffer) (entry : Entry) (index : Nat) : Prop :=
  ∃ charge, entry.Costs charge ∧ charge.At buffer index

/-- The first entry of the log tells the number of tokens, and each of the others is charged to a
token, no two of them to the same. -/
def StepLog.Charged (buffer : Buffer) (log : StepLog) : Prop :=
  ∃ first others indices, log.entries.toList = first :: others ∧
    first.Tells .empty (.parse buffer.tokens.length) ∧
    List.Forall₂ (Entry.ChargedTo buffer) others indices ∧ indices.Nodup ∧
    ∀ index ∈ indices, index < buffer.tokens.length

namespace StepLog

variable {buffer : Buffer} {log : StepLog}

theorem Charged.size_le (charged : log.Charged buffer) :
    log.entries.size ≤ buffer.tokens.length + 1 := by
  rcases charged with ⟨first, others, indices, entries, _, areCharged, nodup, within⟩
  have below : indices.Subperm (List.range buffer.tokens.length) :=
    nodup.subperm fun index member => List.mem_range.mpr (within index member)
  calc log.entries.size = others.length + 1 := by rw [← Array.length_toList, entries]; rfl
    _ = indices.length + 1 := by rw [areCharged.length_eq]
    _ ≤ buffer.tokens.length + 1 := by simpa using below.length_le

/-- What is charged to the tokens of a program and paid for once is charged to tokens apart. -/
theorem charged_of_adds {start : StepLog} {first : Entry} (starts : start.entries = #[first])
    (tells : first.Tells .empty (.parse buffer.tokens.length)) {forest : Forest}
    (matched : forest.Matched) (tokens : forest.tokens = buffer.tokens) {paid : List Charge}
    (adds : start.Adds paid log) (within : paid.Subperm (forest.charges buffer)) :
    log.Charged buffer := by
  rcases adds with ⟨others, entries, cost⟩
  have split : buffer.tokens = [] ++ (forest.tokens ++ []) := by simp [tokens]
  rcases Forest.exists_charges_at matched split with ⟨all, allAt, allWithin⟩
  rcases exists_forall₂_of_subperm within allAt with ⟨indices, areAt, areWithin⟩
  have below := areWithin.trans allWithin.subperm
  rw [List.length_nil, tokens, ← List.range_eq_range'] at below
  refine ⟨first, others, indices, ?_, tells, forall₂_comp cost areAt, ?_, ?_⟩
  · rw [entries, starts]
    rfl
  · rcases List.subperm_iff.mp below with ⟨ordered, isPerm, isPart⟩
    exact (isPerm.nodup_iff.mpr List.nodup_range).sublist isPart
  · exact fun index member => List.mem_range.mp (below.subset member)

end StepLog

section Evaluation

variable {settings : Settings σ} (quiet : settings.hooks = .none)

include quiet

/-- Wherever an evaluation ends, its steps are charged to tokens. -/
theorem Eval.charged_program {session : Session σ} (noSteps : session.log = .empty) :
    let buffer : Buffer := ⟨settings.fileName, session.source, session.program⟩
    Ensures (program settings) session (fun _ after => after.log.Charged buffer)
      (fun _ after => after.log.Charged buffer) := by
  intro buffer
  have starts : (session.begun settings).log.entries =
      #[session.entry settings (.parse session.program.length) none] := by
    simp [Session.begun, Session.logged, StepLog.push, noSteps, StepLog.empty]
  have tells : (session.entry settings (.parse session.program.length) none).Tells .empty
      (.parse buffer.tokens.length) :=
    noSteps ▸ session.tells_entry settings _ none
  cases found : Forest.ofTokens session.program with
  | ok forest =>
      rcases Forest.ofTokens_eq_ok_iff.mp found with ⟨matched, tokens⟩
      have spends : Spends buffer (statements settings forest) (forest.charges buffer) fun _ => 0 :=
        spends_statements quiet rfl forest
      rw [Ensures, program_of_found quiet found]
      apply (spends (session.begun settings) rfl).mono
      · rintro _ after ⟨_, paid, adds, within⟩
        rw [add_zero, Multiset.coe_le] at within
        exact StepLog.charged_of_adds starts tells matched tokens adds within
      · rintro _ after ⟨paid, adds, within⟩
        rw [Multiset.coe_le] at within
        exact StepLog.charged_of_adds starts tells matched tokens adds within
  | error token =>
      rcases program_of_blamed quiet found with ⟨location, blamed⟩
      rw [Ensures, blamed]
      exact ⟨_, [], [], by rw [starts], tells, .nil, .nil, by simp⟩

/-- An evaluation records at most one step more than there are tokens, because each step but the
first one is charged to a token of its own. If it succeeds, it has read all tokens. -/
theorem Session.parse_charges_tokens (session : Session σ) (text : String) :
    let buffer := (session.feed text).buffer settings
    let after := (session.parse settings text).2
    after.log.Charged buffer ∧ after.log.entries.size ≤ buffer.tokens.length + 1 ∧
      ∀ value, (session.parse settings text).1 = .ok value →
        after.position = buffer.tokens.length := by
  intro buffer after
  have charged : Eval.Ensures (Eval.program settings) (session.feed text).prepare
      (fun _ finished => finished.log.Charged buffer)
      (fun _ finished => finished.log.Charged buffer) := Eval.charged_program quiet rfl
  have start : (session.feed text).prepare.place.position = 0 := rfl
  have places := Eval.ensures_program (observing_of_quiet quiet) start
  simp only [after, parse_of_quiet quiet]
  cases ran : Eval.program settings (session.feed text).prepare with
  | ok value finished =>
      have logCharged := charged.of_ok ran
      refine ⟨logCharged, logCharged.size_le, fun _ _ => ?_⟩
      have position := congrArg Place.position (places.of_ok ran)
      exact position.trans (Nat.zero_add _)
  | error failure finished =>
      have logCharged := charged.of_error ran
      exact ⟨logCharged, logCharged.size_le, fun _ impossible => nomatch impossible⟩

end Evaluation

theorem Session.parse_charges_tokens_with_block :
    let settings : Settings Unit := {}
    let session : Session Unit := fresh ()
    let text := "let x = 1; \x7b x = 2 + 3 + 4 \x7d"
    let buffer := (session.feed text).buffer settings
    let after := (session.parse settings text).2
    after.log.Charged buffer ∧ after.log.entries.size = 9 ∧ buffer.tokens.length = 14 ∧
      after.position = 14 := by
  intro settings session text
  have quiet : settings.hooks = .none := rfl
  have run : ((session.feed text).buffer settings).tokens.length = 14 ∧
      (session.parse settings text).2.log.entries.size = 9 ∧
      (session.parse settings text).1 = .ok .void := by decide +kernel
  rcases run with ⟨length, size, ended⟩
  rcases parse_charges_tokens quiet session text with ⟨charged, _, consumed⟩
  exact ⟨charged, size, length, (consumed _ ended).trans length⟩

end BlockCalc
