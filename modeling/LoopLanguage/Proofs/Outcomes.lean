import LoopLanguage.Proofs.Lexemes
import LoopLanguage.Proofs.PhraseErrors

/-!
What parsing ends in. Every source is parsed to a program or refused with one of a few errors: a
lexical error of the scanner, an error of the grammar or of its context, or a number with more
digits than are read, which then stands in the source. The recursion of the parsers is on fuel; the
length of the source is enough of it, and more fuel changes nothing.
-/

namespace LoopLanguage

/-! ### Fuel -/

namespace Action

variable {σ α β : Type}

/-- The first action is the second one, cut short where its fuel runs out. -/
def Cuts (act full : Action σ α) : Prop :=
  ∀ s, (∃ t, act s = (.error .exhausted, t)) ∨ act s = full s

namespace Cuts

variable {act full : Action σ α} {f g : α → Action σ β}

theorem refl (act : Action σ α) : Cuts act act := fun _ => .inr rfl

theorem bind (h : Cuts act full) (hf : ∀ a, Cuts (f a) (g a)) : Cuts (act >>= f) (full >>= g) := by
  intro s
  cases hact : act s with
  | mk r t =>
    cases r with
    | error e =>
      rcases h s with ⟨u, hshort⟩ | hsame
      · exact .inl ⟨u, bind_error hshort⟩
      · exact .inr (by rw [bind_error hact, bind_error (hsame ▸ hact)])
    | ok a =>
      rcases h s with ⟨u, hshort⟩ | hsame
      · rw [hact] at hshort
        cases hshort
      · rw [bind_ok hact, bind_ok (hsame ▸ hact)]
        exact hf a t

/-- The first part is the same for both. -/
theorem before (act : Action σ α) (hf : ∀ a, Cuts (f a) (g a)) : Cuts (act >>= f) (act >>= g) :=
  (refl act).bind hf

theorem ite {c : Prop} [Decidable c] {other more : Action σ α} (h : Cuts act full)
    (h' : Cuts other more) : Cuts (if c then act else other) (if c then full else more) := by
  split
  · exact h
  · exact h'

end Cuts

end Action

namespace Parser

open LoopLanguage.Action (Cuts)

variable {block full : Action Parser (List Statement)}

theorem inBlock_cuts (h : Cuts block full) : Cuts (inBlock block) (inBlock full) := by
  intro p
  rcases h (ofLexer p.lexer .kwEnd p.registry) with ⟨q, hshort⟩ | hsame
  · exact .inl ⟨_, by rw [inBlock, hshort]⟩
  · exact .inr (by rw [inBlock, inBlock, hsame])

theorem readLoop_cuts (h : Cuts block full) : Cuts (readLoop block) (readLoop full) := by
  refine .before _ fun _ => .before _ fun count => .before _ fun _ => .before _ fun _ => ?_
  exact h.bind fun _ => .refl _

theorem readDefine_cuts (h : Cuts block full) : Cuts (readDefine block) (readDefine full) := by
  refine .before _ fun _ => .before _ fun name => .before _ fun parser => .before _ fun known => ?_
  refine .ite (.refl _) (.before _ fun _ => .before _ fun _ => .before _ fun params => ?_)
  refine .ite (.refl _) (.before _ fun _ => .before _ fun _ => ?_)
  exact h.bind fun _ => .refl _

theorem readForm_cuts (h : Cuts block full) (form : Statement.Form) :
    Cuts (readForm block form) (readForm full form) := by
  cases form with
  | loop => exact readLoop_cuts h
  | define => exact readDefine_cuts h
  | _ => exact .refl _

theorem nextBy_cuts (h : Cuts block full) : Cuts (nextBy block) (nextBy full) := by
  refine .before _ fun parser => .ite (.refl _) (.before _ fun token => ?_)
  refine .ite (.refl _) (.ite (.refl _) (.before _ fun _ => .before _ fun form => ?_))
  exact (readForm_cuts h form).bind fun _ => .refl _

/-- More fuel does not change what was read without running out of it. -/
theorem statements_cuts {fuel more : Nat} (h : fuel ≤ more) :
    Cuts (statements fuel) (statements more) := by
  induction fuel generalizing more with
  | zero => exact fun p => .inl ⟨p, rfl⟩
  | succ fuel ih =>
    obtain ⟨more, rfl⟩ : ∃ k, more = k + 1 := ⟨more - 1, by omega⟩
    have hrest := @ih more (by omega)
    refine (nextBy_cuts (inBlock_cuts hrest)).bind fun found => ?_
    cases found with
    | none => exact .refl _
    | some s => exact hrest.bind fun _ => .refl _

end Parser

namespace Grammar

open LoopLanguage.Action (Cuts)

section Blocks

variable {block full : Block} (h : ∀ first, Cuts (block first) (full first))
include h

theorem loop_cuts : Cuts (loop block) (loop full) := by
  refine .before _ fun count => .before _ fun piece => .ite (.before _ fun _ => ?_) ?_
  · exact (h _).bind fun _ => .refl _
  · exact (h _).bind fun _ => .refl _

theorem definition_cuts : Cuts (definition block) (definition full) := by
  refine .before _ fun name => .before _ fun _ => .before _ fun params => .before _ fun _ => ?_
  exact (h _).bind fun _ => .refl _

theorem statement_cuts : Cuts (statement block) (statement full) := by
  refine .before _ fun piece => ?_
  cases piece.terminal with
  | kwLoop => exact loop_cuts h
  | kwProgram => exact definition_cuts h
  | _ => exact .refl _

end Blocks

theorem phrases_cuts {fuel more : Nat} (h : fuel ≤ more) (close : Terminal)
    (expected : List Terminal) :
    Cuts (phrases fuel close expected) (phrases more close expected) := by
  induction fuel generalizing more close expected with
  | zero => exact fun feed => .inl ⟨feed, rfl⟩
  | succ fuel ih =>
    obtain ⟨more, rfl⟩ : ∃ k, more = k + 1 := ⟨more - 1, by omega⟩
    have hrest := @ih more (by omega)
    refine .before _ fun piece => .ite (.before _ fun _ => hrest _ _) (.ite (.refl _) ?_)
    refine (statement_cuts fun first => (hrest _ first).bind fun _ => .refl _).bind fun _ => ?_
    exact (hrest _ _).bind fun _ => .refl _

end Grammar

/-- Parsing by descent with that much fuel. -/
def descentWithin (fuel : Nat) (source : String) : Action Registry (List Statement) :=
  fun registry =>
    match Parser.statements fuel (Parser.ofLexer (Lexer.ofSource source false) .eof registry) with
    | (r, parser) => (r, parser.registry)

/-- Parsing by the grammar with that much fuel. -/
def grammarWithin (fuel : Nat) (source : String) : Action Registry (List Statement) :=
  fun registry =>
    match Grammar.phrases fuel .finish (.finish :: .separator :: Grammar.starts)
      (Grammar.Feed.ofSource source) with
    | (.ok phrases, _) => Grammar.Phrase.meanings phrases registry
    | (.error e, _) => (.error e, registry)

/-! ### Errors -/

/-- What the scanner finds wrong with a text. The other lexical errors are about the use of the
lexer and of its tokens. -/
def Error.IsScanning : Error → Prop
  | unexpectedCharacter .. | malformedNumber .. | unterminatedString .. | invalidEscape .. => True
  | _ => False

theorem Error.IsScanning.category {e : Error} (h : e.IsScanning) : e.category = .lexical := by
  cases e <;> first | rfl | exact h.elim

/-- How parsing a source may end. -/
inductive Documented (source : String) : Except Error (List Statement) → Prop
  | program (body : List Statement) : Documented source (.ok body)
  | scanning {e : Error} (hcategory : e.category = .lexical) (h : e.IsScanning) :
      Documented source (.error e)
  | parsing {e : Error} (h : e.category = .parsing) : Documented source (.error e)
  /-- The number stands in the source, and it is too long. -/
  | tooLong {digits rest : List Char} (h : (.number digits, rest) ∈ Lexeme.row source.toList)
      (hlong : Text.maxDigits < digits.length) :
      Documented source (.error (.tooManyDigitsRead digits.length))

theorem Documented.ne_exhausted {source : String} {r : Except Error (List Statement)}
    (h : Documented source r) : r ≠ .error .exhausted := by
  rintro rfl
  cases h with
  | scanning hcategory => cases hcategory
  | parsing hcategory => cases hcategory

/-- The token is what one of the lexemes denotes. -/
def Token.StandsIn (t : Token) (ls : List (Lexeme × List Char)) : Prop :=
  ∃ l ∈ ls, ∃ text, l.1.Denotes t.kind text ∧ t.text = .text text

theorem Token.StandsIn.later {t : Token} {ls : List (Lexeme × List Char)} (h : t.StandsIn ls)
    (l : Lexeme × List Char) : t.StandsIn (l :: ls) := by
  obtain ⟨m, hm, hstands⟩ := h
  exact ⟨m, List.mem_cons_of_mem l hm, hstands⟩

namespace Lexer

theorem scan_error {lexer after : Lexer} {e : Error} (h : scan lexer = (.error e, after)) :
    e.IsScanning := by
  unfold scan at h
  simp only at h
  repeat' split at h
  all_goals cases h
  all_goals trivial

/-- The tokens of a source stand in it, and what it fails with is an error of the scanner. -/
theorem tokens_stand {lexer : Lexer} (hp : lexer.pushed = none) :
    (∀ t ∈ lexer.tokens.1, t.kind ≠ .eof → t.StandsIn (Lexeme.row lexer.rest)) ∧
      ∀ e, lexer.tokens.2.1 = some e → e.IsScanning := by
  have hcourse := course hp
  clear hp
  induction hcourse with
  | fault hp hscan =>
    rw [tokens_of_error (next_of_error hp hscan)]
    refine ⟨by simp, ?_⟩
    rintro _ ⟨⟩
    exact scan_error hscan
  | finish hp hread hscan =>
    rw [tokens_of_eof (next_of_wanted hp hscan (by simp [Kind.isTrivia])) rfl]
    simp
  | @lexeme lexer lexeme kind text hp hread hdenotes hscan _ ih =>
    obtain ⟨hrest, hfault⟩ := ih
    rw [Lexeme.row_of_some hread]
    cases hwanted : kind.isTrivia && !lexer.keepTrivia with
    | true =>
      rw [tokens_of_unwanted hp hscan hwanted]
      exact ⟨fun u hu hkind => (hrest u hu hkind).later _, hfault⟩
    | false =>
      rw [tokens_of_ok (next_of_wanted hp hscan hwanted) hdenotes.kind_ne_eof]
      refine ⟨List.forall_mem_cons.mpr ⟨fun _ => ?_, fun u hu hkind => ?_⟩, hfault⟩
      · exact ⟨_, List.mem_cons_self, text, hdenotes, rfl⟩
      · exact (hrest u hu hkind).later _

end Lexer

theorem Lexeme.Denotes.eq_number {lexeme : Lexeme} {text : String}
    (h : lexeme.Denotes .number text) :
    ∃ digits, lexeme = .number digits ∧ text = String.ofList digits := by
  generalize hkind : Kind.number = kind at h
  cases h with
  | word cs => exact absurd hkind.symm (Lexeme.wordKind_not_literal _).1
  | number cs => exact ⟨cs, rfl, rfl⟩
  | mark c =>
    have hmark := Lexeme.markKind_cases c
    rw [← hkind] at hmark
    simp at hmark
  | _ => cases hkind

/-- A number that cannot be read is too long. -/
theorem Token.Lexical.value_error {t : Token} (h : t.Lexical) (hkind : t.kind = .number)
    {digits : List Char} (htext : t.text = .text (String.ofList digits)) {e : Error}
    (he : t.value = .error e) :
    e = .tooManyDigitsRead digits.length ∧ Text.maxDigits < digits.length := by
  obtain ⟨s, hs, hnumeral⟩ := h.exists_numeral hkind
  obtain rfl : s = String.ofList digits := by simpa [hs] using htext
  rw [String.toList_ofList] at hnumeral
  have hread : Numeral.read digits = .error e := by
    simpa [Token.value, hkind, hs, Text.isDecimal_of_isNumeral hnumeral] using he
  exact Numeral.read_eq_error hread

theorem parseByDescent_documented (source : String) (registry : Registry) :
    Documented source (parseByDescent source registry).1 := by
  cases hrun : parseByDescent source registry with
  | mk r after =>
    cases r with
    | ok body => exact .program body
    | error e =>
      obtain ⟨hstand, hfault⟩ := @Lexer.tokens_stand (Lexer.ofSource source false) rfl
      obtain hparsing | hlexical | ⟨t, ht, hkind, hvalue⟩ := parseByDescent_error hrun
      · exact .parsing hparsing
      · exact .scanning (hfault e hlexical).category (hfault e hlexical)
      · obtain ⟨⟨lexeme, rest⟩, hmem, text, hdenotes, htext⟩ := hstand t ht (by simp [hkind])
        rw [hkind] at hdenotes
        obtain ⟨digits, rfl, rfl⟩ := hdenotes.eq_number
        have hlexical := Lexer.tokens_lexical (Lexer.ofSource source false) rfl t ht
        obtain ⟨rfl, hlong⟩ := hlexical.value_error hkind htext hvalue
        exact .tooLong hmem hlong

namespace Grammar

/-- The piece is that of one of the lexemes. -/
def Piece.StandsIn (piece : Piece) (ls : List (Lexeme × List Char)) : Prop :=
  ∃ l ∈ ls, terminal? l.1 = .ok (some piece.terminal) ∧ piece.text = String.ofList l.1.chars

theorem Piece.StandsIn.later {piece : Piece} {ls : List (Lexeme × List Char)}
    (h : piece.StandsIn ls) (l : Lexeme × List Char) : piece.StandsIn (l :: ls) := by
  obtain ⟨m, hm, hstands⟩ := h
  exact ⟨m, List.mem_cons_of_mem l hm, hstands⟩

/-- The pieces of a text stand in it, and what it fails with is a character that fits none. -/
theorem piecesFrom_stand (count : Nat) (place : Place) (cs : List Char) :
    (∀ piece ∈ (piecesFrom count place cs).1, piece.StandsIn (Lexeme.row cs)) ∧
      (∀ e, (piecesFrom count place cs).2 = some e → e.IsScanning) ∧
      (piecesFrom count place cs).1.length ≤ count := by
  induction count generalizing place cs with
  | zero => simp [piecesFrom]
  | succ count ih =>
    cases hread : Lexeme.read? (Lexeme.trim cs) with
    | none =>
      rw [Lexeme.trim] at hread
      simp [piecesFrom, hread]
    | some lexeme =>
      obtain ⟨here, next, heq⟩ := piecesFrom_of_read hread count place
      obtain ⟨hpieces, hfault, hlength⟩ := ih next ((Lexeme.trim cs).drop lexeme.chars.length)
      rw [heq, Lexeme.row_of_some hread]
      cases hterminal : terminal? lexeme with
      | error c =>
        refine ⟨by simp, ?_, by simp⟩
        rintro _ ⟨⟩
        trivial
      | ok terminal =>
        have hlater := fun piece hpiece =>
          (hpieces piece hpiece).later (lexeme, (Lexeme.trim cs).drop lexeme.chars.length)
        cases terminal with
        | none => exact ⟨hlater, hfault, by simp; omega⟩
        | some terminal =>
          refine ⟨List.forall_mem_cons.mpr ⟨?_, hlater⟩, hfault, by simpa using hlength⟩
          exact ⟨_, List.mem_cons_self, hterminal, rfl⟩

theorem Piece.StandsIn.number {piece : Piece} {ls : List (Lexeme × List Char)}
    (h : piece.StandsIn ls) (hterminal : piece.terminal = .number) :
    ∃ digits rest, (.number digits, rest) ∈ ls ∧ piece.text = String.ofList digits := by
  obtain ⟨⟨lexeme, rest⟩, hl, hkind, htext⟩ := h
  rw [hterminal] at hkind
  have hkind : ∃ digits, lexeme = .number digits := by
    cases lexeme with
    | number digits => exact ⟨digits, rfl⟩
    | word text =>
      have hword : wordTerminal (String.ofList text) = .number := by simpa [terminal?] using hkind
      exact absurd (hword ▸ (wordTerminal_kind _).symm) (Lexeme.wordKind_not_literal _).1
    | mark c =>
      have hmark : markTerminal c = .number := by simpa [terminal?] using hkind
      have hkinds := Lexeme.markKind_cases c
      rw [← markTerminal_kind, hmark] at hkinds
      simp [Terminal.kind] at hkinds
    | _ => simp [terminal?] at hkind
  obtain ⟨digits, rfl⟩ := hkind
  exact ⟨digits, rest, hl, htext⟩

theorem Piece.value_error {piece : Piece} {e : Error} (hterminal : piece.terminal = .number)
    (h : piece.value = .error e) : piece.flat.value = .error e := by
  cases htoken : piece.token with
  | error _ => simp [Piece.token, hterminal] at htoken
  | ok t =>
    rw [← token_eq_flat htoken]
    simpa [Piece.value, htoken, bind, Except.bind] using h

/-- An item fails to have a token only for what the scanner finds wrong with it. -/
theorem Piece.IsItem.token_error {piece : Piece} {e : Error} (hitem : piece.IsItem)
    (h : piece.token = .error e) : e.IsScanning := by
  unfold Piece.token at h
  split at h
  · split at h <;> cases h
    trivial
  · cases h
  · cases h
  · simp_all [Piece.IsItem]

end Grammar

theorem parseByGrammar_documented (source : String) (registry : Registry) :
    Documented source (parseByGrammar source registry).1 := by
  cases hrun : parseByGrammar source registry with
  | mk r after =>
    cases r with
    | ok body => exact .program body
    | error e =>
      obtain ⟨hstand, hfault, _⟩ :=
        Grammar.piecesFrom_stand (source.toList.length + 1) ⟨1, 1⟩ source.toList
      obtain hparsing | hlexical | ⟨piece, hpiece, ⟨hitem, htoken⟩ | ⟨hterminal, hvalue⟩⟩ :=
        parseByGrammar_error hrun
      · exact .parsing hparsing
      · exact .scanning (hfault e hlexical).category (hfault e hlexical)
      · have hscanning := hitem.token_error htoken
        exact .scanning hscanning.category hscanning
      · obtain ⟨digits, rest, hmem, htext⟩ := (hstand piece hpiece).number hterminal
        have hflat : piece.flat.text = .text (String.ofList digits) := by
          rw [Grammar.Piece.flat_text (by simp [hterminal]), Grammar.Piece.atom, htext]
        have hkind : piece.flat.kind = .number := by simp [hterminal, Grammar.Terminal.kind]
        have hvalue : piece.flat.value = .error e := Grammar.Piece.value_error hterminal hvalue
        obtain ⟨rfl, hlong⟩ :=
          (Grammar.pieces_lexical source piece hpiece).value_error hkind hflat hvalue
        exact .tooLong hmem hlong

/-- Parsing a source always ends, for either parser and whatever programs there are: with a program,
an error of the scanner or of the grammar, or with a number of the source that is too long. Fuel for
its recursion that is linear in the length of the source is enough. -/
theorem parse_documented (source : String) (registry : Registry) :
    Documented source (parseByDescent source registry).1 ∧
      Documented source (parseByGrammar source registry).1 ∧
      ∀ fuel, source.length + 2 ≤ fuel →
        descentWithin fuel source registry = parseByDescent source registry ∧
          grammarWithin fuel source registry = parseByGrammar source registry := by
  have hlength : source.toList.length = source.length := String.length_toList
  have hdescent := parseByDescent_documented source registry
  have hgrammar := parseByGrammar_documented source registry
  refine ⟨hdescent, hgrammar, fun fuel hfuel => ⟨?_, ?_⟩⟩
  · let p := Parser.ofLexer (Lexer.ofSource source false) .eof registry
    have hsize : p.size ≤ fuel := by
      simp only [p, Parser.size, Parser.ofLexer, Lexer.ofSource, List.length_nil]
      omega
    have hrun : parseByDescent source registry = descentWithin p.size source registry := rfl
    rw [hrun] at hdescent ⊢
    rcases Parser.statements_cuts hsize p with ⟨q, hshort⟩ | hsame
    · exact absurd (by rw [descentWithin, hshort]) hdescent.ne_exhausted
    · rw [descentWithin, descentWithin, hsame]
  · let feed := Grammar.Feed.ofSource source
    have hsize : feed.pieces.length + 1 ≤ fuel := by
      obtain ⟨_, _, hpieces⟩ :=
        Grammar.piecesFrom_stand (source.toList.length + 1) ⟨1, 1⟩ source.toList
      have hpieces : feed.pieces.length ≤ source.toList.length + 1 := hpieces
      omega
    have hrun : parseByGrammar source registry =
        grammarWithin (feed.pieces.length + 1) source registry := rfl
    rw [hrun] at hgrammar ⊢
    rcases Grammar.phrases_cuts hsize _ _ feed with ⟨r, hshort⟩ | hsame
    · exact absurd (by rw [grammarWithin, hshort]) hgrammar.ne_exhausted
    · rw [grammarWithin, grammarWithin, hsame]

/-- The loop is not closed, and the end of the source comes again and again. -/
theorem parse_documented_unclosed :
    "LOOP x DO".length + 2 ≤ 11 ∧
      descentWithin 11 "LOOP x DO" [] = parseByDescent "LOOP x DO" [] ∧
      grammarWithin 11 "LOOP x DO" [] = parseByGrammar "LOOP x DO" [] :=
  ⟨by decide, (parse_documented "LOOP x DO" []).2.2 11 (by decide)⟩

end LoopLanguage
