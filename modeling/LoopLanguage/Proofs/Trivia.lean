import LoopLanguage.Proofs.Outcomes

/-!
Newlines and comments, passed over or given out. A lexer scans them in any case, and the scan does
not look at whether they are asked for. So a lexer that passes over them goes through the same
states as one that gives them out, and gives the same tokens without them.
-/

namespace LoopLanguage

namespace Lexer

/-- The same lexer, which passes over newlines and comments. -/
def passing (lexer : Lexer) : Lexer := { lexer with keepTrivia := false }

theorem scan_passing (lexer : Lexer) :
    scan lexer.passing = ((scan lexer).1, (scan lexer).2.passing) := by
  have hrest : lexer.passing.skipGaps.rest = lexer.skipGaps.rest := rfl
  have hnext (cs : List Char) :
      (lexer.passing.skipGaps.skip cs).rest = (lexer.skipGaps.skip cs).rest := rfl
  unfold scan
  simp only [hrest, hnext]
  split
  case h_5 digits hread =>
    split
    · split <;> rfl
    · rfl
  case h_6 raw hread => split <;> rfl
  all_goals rfl

theorem passing_noted (after : Lexer) (t : Token) :
    after.passing.noted t = (after.noted t).passing := rfl

/-- Beside the tokens that are left out the two runs differ in nothing: they end the same way and
in the same state. -/
theorem Course.tokens_passing {lexer : Lexer} (h : Course lexer) (hkeep : lexer.keepTrivia = true) :
    lexer.passing.tokens =
      (lexer.tokens.1.filter (fun t => !t.kind.isTrivia), lexer.tokens.2.1,
        lexer.tokens.2.2.passing) := by
  induction h with
  | @fault lexer after e hp hscan =>
    have hpassing : scan lexer.passing = (.error e, after.passing) := by
      rw [scan_passing, hscan]
    have hpushed : lexer.passing.pushed = none := hp
    rw [tokens_of_error (next_of_error hp hscan), tokens_of_error (next_of_error hpushed hpassing)]
    rfl
  | @finish lexer hp hread hscan =>
    have hpassing : scan lexer.passing =
        (.ok ⟨.eof, .absent, lexer.skipGaps.place, lexer.lineStart⟩, lexer.skipGaps.passing) := by
      rw [scan_passing, hscan]
    have hpushed : lexer.passing.pushed = none := hp
    rw [tokens_of_eof (next_of_wanted hp hscan (by simp [Kind.isTrivia])) rfl,
      tokens_of_eof (next_of_wanted hpushed hpassing (by simp [Kind.isTrivia])) rfl]
    rfl
  | @lexeme lexer lexeme kind text hp hread hdenotes hscan _ ih =>
    have hpassing : scan lexer.passing =
        (.ok ⟨kind, .text text, lexer.skipGaps.place, lexer.lineStart⟩,
          (lexer.skipGaps.skip lexeme.chars).passing) := by
      rw [scan_passing, hscan]
    have hpushed : lexer.passing.pushed = none := hp
    have hwanted : (kind.isTrivia && !lexer.keepTrivia) = false := by simp [hkeep]
    rw [tokens_of_ok (next_of_wanted hp hscan hwanted) hdenotes.kind_ne_eof]
    cases htrivia : kind.isTrivia with
    | true =>
      -- the token is passed over, and what is noted of it is noted in both runs
      have hunwanted : (kind.isTrivia && !lexer.passing.keepTrivia) = true := by
        simp [htrivia, passing]
      rw [tokens_of_unwanted hpushed hpassing hunwanted, List.filter_cons_of_neg (by simp [htrivia]),
        passing_noted, ih hkeep]
    | false =>
      have hsame : (kind.isTrivia && !lexer.passing.keepTrivia) = false := by simp [htrivia]
      rw [tokens_of_ok (next_of_wanted hpushed hpassing hsame) hdenotes.kind_ne_eof,
        List.filter_cons_of_pos (by simp [htrivia]), passing_noted, ih hkeep]

/-- A lexer that meets no fault stops at the end token. -/
theorem Course.ends {lexer : Lexer} (h : Course lexer) (hfault : lexer.tokens.2.1 = none) :
    ∃ front last, lexer.tokens.1 = front ++ [last] ∧ last.kind = .eof := by
  induction h with
  | fault hp hscan =>
    rw [tokens_of_error (next_of_error hp hscan)] at hfault
    cases hfault
  | finish hp hread hscan =>
    rw [tokens_of_eof (next_of_wanted hp hscan (by simp [Kind.isTrivia])) rfl]
    exact ⟨[], _, rfl, rfl⟩
  | @lexeme lexer lexeme kind text hp hread hdenotes hscan _ ih =>
    cases hwanted : kind.isTrivia && !lexer.keepTrivia with
    | true =>
      rw [tokens_of_unwanted hp hscan hwanted] at hfault ⊢
      exact ih hfault
    | false =>
      rw [tokens_of_ok (next_of_wanted hp hscan hwanted) hdenotes.kind_ne_eof] at hfault ⊢
      obtain ⟨front, last, htokens, hlast⟩ := ih hfault
      exact ⟨_ :: front, last, by rw [htokens]; rfl, hlast⟩

end Lexer

/-- Passing over newlines and comments gives the tokens of the source with these left out. Both ways
of reading go to the end, or both stop at the same lexical error, and they stop at the same place. -/
theorem passing_eq_filter (source : String) :
    (Lexer.ofSource source false).tokens.1 =
      (Lexer.ofSource source true).tokens.1.filter
        (fun t => t.kind ≠ .newline ∧ t.kind ≠ .comment) ∧
    (((Lexer.ofSource source false).tokens.2.1 = none ∧
        (Lexer.ofSource source true).tokens.2.1 = none ∧
        (∃ front last, (Lexer.ofSource source false).tokens.1 = front ++ [last] ∧
          last.kind = .eof) ∧
        ∃ front last, (Lexer.ofSource source true).tokens.1 = front ++ [last] ∧
          last.kind = .eof) ∨
      ∃ e, (Lexer.ofSource source false).tokens.2.1 = some e ∧
        (Lexer.ofSource source true).tokens.2.1 = some e ∧ e.category = .lexical) ∧
    (Lexer.ofSource source false).tokens.2.2.offset =
      (Lexer.ofSource source true).tokens.2.2.offset ∧
    (Lexer.ofSource source false).tokens.2.2.place =
      (Lexer.ofSource source true).tokens.2.2.place := by
  have hcourse (keepTrivia : Bool) : Lexer.Course (Lexer.ofSource source keepTrivia) :=
    Lexer.course rfl
  have hpassing : (Lexer.ofSource source false).tokens = _ := (hcourse true).tokens_passing rfl
  have hkinds : (fun t : Token => !t.kind.isTrivia) =
      fun t : Token => decide (t.kind ≠ .newline ∧ t.kind ≠ .comment) := by
    funext t
    cases t.kind <;> rfl
  refine ⟨?_, ?_, ?_, ?_⟩
  · rw [hpassing, hkinds]
  · have hsame : (Lexer.ofSource source false).tokens.2.1 =
        (Lexer.ofSource source true).tokens.2.1 := by rw [hpassing]
    cases hfault : (Lexer.ofSource source true).tokens.2.1 with
    | none =>
      have hnone := hsame.trans hfault
      exact .inl ⟨hnone, rfl, (hcourse false).ends hnone, (hcourse true).ends hfault⟩
    | some e =>
      have hscanning := (@Lexer.tokens_stand (Lexer.ofSource source true) rfl).2 e hfault
      exact .inr ⟨e, hsame.trans hfault, rfl, hscanning.category⟩
  · rw [hpassing]
    rfl
  · rw [hpassing]
    rfl

end LoopLanguage
