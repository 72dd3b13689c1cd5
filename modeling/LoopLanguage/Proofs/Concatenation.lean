import Mathlib
import LoopLanguage.Proofs.Agreement
import LoopLanguage.Proofs.Lexemes
import LoopLanguage.Proofs.Literals

/-!
Sources one after the other. A line break ends every lexeme and every statement, so a source that is
put together from two sources with a line break between them is parsed as the one and then, with the
programs of the first one known, as the other. Only the places of the tokens in the second part
depend on what comes before it.
-/

namespace LoopLanguage

/-! ### Programs that differ in places -/

namespace Statement

theorem sameTokens_of_placeless {ts us : List Token}
    (h : ts.map Token.placeless = us.map Token.placeless) : sameTokens ts us = true := by
  induction ts generalizing us with
  | nil =>
    obtain rfl := List.map_eq_nil_iff.mp h.symm
    rfl
  | cons t ts ih =>
    obtain ⟨u, us, rfl, hu, hus⟩ := List.map_eq_cons_iff.mp h.symm
    simp only [Token.placeless, Token.mk.injEq] at hu
    simp [sameTokens, Token.same, hu, ih hus.symm]

mutual

theorem same_of_placeless : ∀ s s' : Statement, s.placeless = s'.placeless → same s s' = true
  | .input _, s', h => by
    cases s' <;> simp only [placeless, reduceCtorEq, input.injEq] at h
    exact sameTokens_of_placeless h
  | .output _, s', h => by
    cases s' <;> simp only [placeless, reduceCtorEq, output.injEq] at h
    exact sameTokens_of_placeless h
  | .loop _ body, s', h => by
    cases s' <;> simp only [placeless, reduceCtorEq, loop.injEq] at h
    simp [same, h.1, sameBody_of_placeless body _ h.2]
  | .define _ _ body, s', h => by
    cases s' <;> simp only [placeless, reduceCtorEq, define.injEq] at h
    simp [same, h.1, h.2.1, sameBody_of_placeless body _ h.2.2]
  | .program body, s', h => by
    cases s' <;> simp only [placeless, reduceCtorEq, program.injEq] at h
    exact sameBody_of_placeless body _ h
  | .token t, s', h => by
    cases s' <;> simp only [placeless, reduceCtorEq, token.injEq] at h
    simp only [Token.placeless, Token.mk.injEq] at h
    simp [same, Token.same, h]
  | .assign .., s', h | .increment .., s', h | .call .., s', h | .missing, s', h => by
    cases s' <;> simp_all [placeless, same]

theorem sameBody_of_placeless : ∀ body body' : List Statement,
    placelessAll body = placelessAll body' → sameBody body body' = true
  | [], body', h => by
    cases body' with
    | nil => rfl
    | cons => cases h
  | s :: body, body', h => by
    cases body' with
    | nil => cases h
    | cons s' body' =>
      obtain ⟨hs, hbody⟩ := List.cons.inj h
      simp [sameBody, same_of_placeless s s' hs, sameBody_of_placeless body body' hbody]

end

theorem enrollAll_append {body more : List Statement} {registry middle : Registry}
    (h : enrollAll body registry = some middle) :
    enrollAll (body ++ more) registry = enrollAll more middle := by
  induction body generalizing registry with
  | nil =>
    cases h
    rfl
  | cons s body ih =>
    obtain ⟨next, hs, hbody⟩ := enrollAll_cons.mp h
    rw [List.cons_append, enrollAll, hs]
    exact ih hbody

theorem RegularAll.append {body more : List Statement} (h : RegularAll body)
    (h' : RegularAll more) : RegularAll (body ++ more) := by
  induction body with
  | nil => exact h'
  | cons s body ih => exact ⟨h.1, ih h.2⟩

end Statement

theorem Registry.same_of_placeless {registry other : Registry}
    (h : registry.placeless = other.placeless) : Registry.same registry other := by
  unfold Registry.same
  induction registry generalizing other with
  | nil =>
    obtain rfl := List.map_eq_nil_iff.mp h.symm
    exact .nil
  | cons d registry ih =>
    obtain ⟨e, rest, rfl, he, hrest⟩ := List.map_eq_cons_iff.mp h.symm
    simp only [Definition.placeless, Definition.mk.injEq] at he
    exact .cons ⟨he.1.symm, he.2.1.symm, Statement.sameBody_of_placeless _ _ he.2.2.symm⟩
      (ih hrest.symm)

/-- Programs that are the same enroll the same. -/
theorem Statement.enrollAll_same {body body' : List Statement} {registry after : Registry}
    (hregular : RegularAll body) (hregular' : RegularAll body')
    (hsame : sameBody body' body = true) (h : enrollAll body registry = some after) :
    ∃ after', enrollAll body' registry = some after' ∧ Registry.same after' after := by
  have hplaceless := placelessAll_of_same body' body hregular' hregular hsame
  have henroll := enrollAll_placeless body' registry
  rw [hplaceless, enrollAll_placeless, h, Option.map_some] at henroll
  obtain ⟨after', hafter', heq⟩ := Option.map_eq_some_iff.mp henroll.symm
  exact ⟨after', hafter', Registry.same_of_placeless heq⟩

/-! ### Sentences one after the other -/

/-- Statements can be followed by more where the token that closes them stands, if a statement can
end there. -/
theorem Sentences.append {close : Kind} {v : Token} {vs inners : List Token}
    {more : List Statement} (hv : v.Ends) (h : Sentences close (v :: vs) inners more) :
    ∀ {ts inner : List Token} {body : List Statement}, Sentences close ts inner body →
      Sentences close (ts.dropLast ++ v :: vs) (inner ++ inners) (body ++ more)
  | _, _, _, .close _ => h
  | _, _, _, .semicolon hsemi rest => by
    obtain ⟨u, us, rfl, _⟩ := rest.head
    exact .semicolon hsemi (Sentences.append hv h rest)
  | _, _, _, @Sentences.cons _ next _ us _ _ _ _ first hnext rest => by
    have hrest := Sentences.append hv h rest
    rw [List.dropLast_append_of_ne_nil (by simp), List.append_assoc, List.append_assoc]
    cases us with
    | nil => exact .cons first hv hrest
    | cons u us => exact .cons first hnext hrest

/-- Tokens that are sentences can be put elsewhere, with another end after them. -/
theorem Sentences.elsewhere {ts us inner : List Token} {t u : Token} {body : List Statement}
    {registry after : Registry} (h : Sentences .eof (ts ++ [t]) inner body)
    (hmoved : Moved ts us) (hu : u.kind = .eof) (hregular : Statement.RegularAll body)
    (hlexical : ∀ v ∈ us ++ [u], v.Lexical)
    (henroll : Statement.enrollAll body registry = some after) :
    ∃ inner' body' after', Sentences .eof (us ++ [u]) inner' body' ∧
      Statement.sameBody body' body = true ∧ Statement.enrollAll body' registry = some after' ∧
      Registry.same after' after := by
  have hend : Sentences .eof (ts ++ [u]) inner body := by
    simpa using Sentences.append (.inr (.inr (.inr hu))) (.close hu) h
  obtain ⟨inner', body', hbody', _, hsame⟩ := hend.moved (hmoved.append (.refl [u]))
  obtain ⟨after', hafter', hregistry⟩ :=
    Statement.enrollAll_same hregular (hbody'.regular hlexical) hsame henroll
  exact ⟨inner', body', after', hbody', hsame, hafter', hregistry⟩

/-! ### The parsers -/

/-- The tokens that the pieces of a source stand for have the form that their kinds promise. -/
theorem Grammar.flat_pieces_lexical (source : String) {t : Token} (ht : t.kind = .eof) :
    ∀ u ∈ (Feed.ofSource source).pieces.map Piece.flat ++ [t], u.Lexical := by
  intro u hu
  rcases List.mem_append.mp hu with hu | hu
  · obtain ⟨piece, hpiece, rfl⟩ := List.mem_map.mp hu
    exact pieces_lexical source piece hpiece
  · obtain rfl := List.mem_singleton.mp hu
    simp [Token.Lexical, ht]

section Parse

variable {first second : String} {before middle after : Registry} {body more : List Statement}

theorem parseByDescent_newline (h : parseByDescent first before = (.ok body, middle))
    (h' : parseByDescent second middle = (.ok more, after)) :
    ∃ found registry, parseByDescent (first ++ "\n" ++ second) before = (.ok found, registry) ∧
      Statement.sameBody found (body ++ more) = true ∧ Registry.same registry after := by
  obtain ⟨hfault, ⟨inner, hsentences⟩, henroll⟩ := parseByDescent_eq_ok.mp h
  obtain ⟨hfault', ⟨inner', hsentences'⟩, henroll'⟩ := parseByDescent_eq_ok.mp h'
  obtain ⟨ts, last, hts, _, hrow⟩ := Lexer.row_of_no_fault rfl rfl hfault
  obtain ⟨us, last', hus, hlast', hrow'⟩ := Lexer.row_of_no_fault rfl rfl hfault'
  have htext : (first ++ "\n" ++ second).toList = first.toList ++ '\n' :: second.toList := by simp
  have hall : Row true (Lexeme.row (first ++ "\n" ++ second).toList) (ts ++ us) := by
    rw [htext, Lexeme.row_newline]
    exact hrow.newline second.toList hrow'
  let lexer := Lexer.ofSource (first ++ "\n" ++ second) false
  obtain ⟨vs, end', hvs, hnone, hend, hmoved⟩ := @Lexer.tokens_of_row lexer rfl rfl _ hall
  -- The first token of the second source opens a line, or there is only its end.
  obtain ⟨v, rest, hv, hends⟩ : ∃ v rest, us ++ [last'] = v :: rest ∧ v.Ends := by
    cases us with
    | nil => exact ⟨last', [], rfl, .inr (.inr (.inr hlast'))⟩
    | cons u us => exact ⟨u, us ++ [last'], rfl, .inr (.inl (hrow'.lineStart rfl))⟩
  rw [hus, hv] at hsentences'
  have hjoined := Sentences.append hends hsentences' hsentences
  rw [hts, List.dropLast_concat, ← hv, ← List.append_assoc] at hjoined
  have hregular := (ParsedAfter.regular ⟨first, .inl h⟩).append
    (ParsedAfter.regular ⟨second, .inl h'⟩)
  have henrolled : Statement.enrollAll (body ++ more) before = some after := by
    rw [Statement.enrollAll_append henroll, henroll']
  obtain ⟨inner, found, registry, hfound, hsame, hregistry, hafter⟩ :=
    hjoined.elsewhere hmoved hend hregular (hvs ▸ lexer.tokens_lexical rfl) henrolled
  exact ⟨found, registry, parseByDescent_eq_ok.mpr ⟨hnone, ⟨inner, hvs ▸ hfound⟩, hregistry⟩,
    hsame, hafter⟩

open Grammar (Feed Piece)

/-- A source is accepted if its pieces are sentences when they are put elsewhere. -/
theorem parseByGrammar_of_elsewhere {source : String} {ps : List Piece} {inner : List Token}
    {t : Token} (ht : t.kind = .eof)
    (hsentences : Sentences .eof (ps.map Piece.flat ++ [t]) inner body)
    (hsound : ∀ p ∈ ps, p.Sound) (hregular : Statement.RegularAll body)
    (henroll : Statement.enrollAll body before = some after)
    (hfault : (Feed.ofSource source).fault = none)
    (hpieces : (Feed.ofSource source).pieces.map Piece.unplaced = ps.map Piece.unplaced) :
    ∃ found registry, parseByGrammar source before = (.ok found, registry) ∧
      Statement.sameBody found body = true ∧ Registry.same registry after := by
  have hmoved : Moved (ps.map Piece.flat) ((Feed.ofSource source).pieces.map Piece.flat) := by
    refine Moved.of_unplaced ?_
    rw [Piece.map_flat_unplaced, Piece.map_flat_unplaced, hpieces]
  obtain ⟨inner', found, registry, hfound, hsame, hregistry, hafter⟩ :=
    hsentences.elsewhere hmoved ht hregular (Grammar.flat_pieces_lexical _ ht) henroll
  have hall : ∀ p ∈ (Feed.ofSource source).pieces, p.Sound := by
    intro p hp
    have hmem := List.mem_map_of_mem (f := Piece.unplaced) hp
    rw [hpieces] at hmem
    obtain ⟨q, hq, heq⟩ := List.mem_map.mp hmem
    show p.unplaced.Sound
    rw [← heq]
    exact hsound q hq
  exact ⟨found, registry, (Grammar.parseByGrammar_iff_sentences ht).mpr
    ⟨hfault, hall, ⟨inner', hfound⟩, hregistry⟩, hsame, hafter⟩

theorem parseByGrammar_newline (h : parseByGrammar first before = (.ok body, middle))
    (h' : parseByGrammar second middle = (.ok more, after)) :
    ∃ found registry, parseByGrammar (first ++ "\n" ++ second) before = (.ok found, registry) ∧
      Statement.sameBody found (body ++ more) = true ∧ Registry.same registry after := by
  let t : Token := ⟨.eof, .absent, ⟨1, 1⟩, false⟩
  have ht : t.kind = .eof := rfl
  obtain ⟨hfault, hsound, ⟨inner, hsentences⟩, henroll⟩ :=
    (Grammar.parseByGrammar_iff_sentences ht).mp h
  obtain ⟨hfault', hsound', ⟨inner', hsentences'⟩, henroll'⟩ :=
    (Grammar.parseByGrammar_iff_sentences ht).mp h'
  obtain ⟨hnone, hpieces⟩ := Feed.ofSource_newline hfault hfault'
  generalize (Feed.ofSource first).pieces = ps at *
  generalize (Feed.ofSource second).pieces = qs at *
  let sep : Piece := ⟨.separator, "\n", ⟨1, 1⟩⟩
  have hjoined : Sentences .eof ((ps ++ sep :: qs).map Piece.flat ++ [t]) (inner ++ inner')
      (body ++ more) := by
    have hmore : Sentences .eof (sep.flat :: (qs.map Piece.flat ++ [t])) inner' more :=
      .semicolon rfl hsentences'
    simpa using Sentences.append (.inl rfl) hmore hsentences
  have hall : ∀ p ∈ ps ++ sep :: qs, p.Sound := by
    intro p hp
    rcases List.mem_append.mp hp with hp | hp
    · exact hsound p hp
    · rcases List.mem_cons.mp hp with rfl | hp
      · exact fun hstring => by cases hstring
      · exact hsound' p hp
  have hregular := (ParsedAfter.regular ⟨first, .inr h⟩).append
    (ParsedAfter.regular ⟨second, .inr h'⟩)
  have henrolled : Statement.enrollAll (body ++ more) before = some after := by
    rw [Statement.enrollAll_append henroll, henroll']
  exact parseByGrammar_of_elsewhere ht hjoined hall hregular henrolled hnone hpieces

/-- Parsing one source and then, with the registry that it left, another one gives the same program
and the same registry as parsing both as one source, for either parser. -/
theorem parse_newline {parse : String → Action Registry (List Statement)}
    (hparse : parse = parseByDescent ∨ parse = parseByGrammar)
    (h : parse first before = (.ok body, middle)) (h' : parse second middle = (.ok more, after)) :
    ∃ found registry, parse (first ++ "\n" ++ second) before = (.ok found, registry) ∧
      Statement.sameBody found (body ++ more) = true ∧ Registry.same registry after := by
  rcases hparse with rfl | rfl
  · exact parseByDescent_newline h h'
  · exact parseByGrammar_newline h h'

end Parse

/-- The first source ends in a comment, which does not go on into the second one. -/
theorem parse_newline_comment :
    (∃ found registry,
      parseByDescent
          ("PROGRAM P(a) DO X0 := a + 1 END # next" ++ "\n" ++ "x := P(x); OUTPUT x") [] =
        (.ok found, registry) ∧
        Statement.sameBody found
          ([.define (.text "P") [.text "a"] [.increment (.text "X0") (.text "a")]] ++
            [.call (.text "x") (.text "P") [.text "x"],
              .output [⟨.identifier, .text "x", ⟨1, 19⟩, false⟩]]) = true ∧
        Registry.same registry
          [⟨.text "P", [.text "a"], [.increment (.text "X0") (.text "a")]⟩]) ∧
      ∃ found registry,
        parseByGrammar ("OUTPUT \"a\"," ++ "\n" ++ "x := 0") [] = (.ok found, registry) ∧
          Statement.sameBody found
            ([.output [⟨.string, .text "a", ⟨1, 8⟩, false⟩]] ++ [.assign (.text "x") 0]) = true ∧
          Registry.same registry [] :=
  ⟨@parse_newline _ _ [] [⟨.text "P", [.text "a"], [.increment (.text "X0") (.text "a")]⟩] _ _ _ _
      (.inl rfl) (by cbv) (by cbv),
    @parse_newline _ _ [] [] _ _ _ _ (.inr rfl) (by cbv) (by cbv)⟩

end LoopLanguage
