import LoopLanguage.Proofs.Layout
import LoopLanguage.Proofs.Printing
import LoopLanguage.Proofs.Relocation

/-!
Printing and parsing. A program that is written down as it is is read back by both parsers; what
the printer writes is the program in canonical spelling, but for the literals that indenting has
changed. So the printed program is parsed, and as the canonical program exactly if no literal in a
body has a line break that is not escaped.
-/

namespace LoopLanguage

namespace Statement

/-- What is written down is read back. -/
theorem joined_sentences {body : List Statement} (hregular : RegularAll body)
    (htidy : TidyAll body) {text : String}
    (htext : text.toList = ['\n'].intercalate (body.map (write 0))) :
    (Lexer.ofSource text false).tokens.2.1 = none ∧
      ∃ inner found, Sentences .eof (Lexer.ofSource text false).tokens.1 inner found ∧
        (∀ t ∈ inner, t.lineStart = false) ∧ sameBody found body = true := by
  obtain ⟨finish, hspells⟩ := joined_spells hregular htidy
  obtain ⟨us, last, htokens, hfault, hlast, hunplaced⟩ :=
    @Spells.tokens _ _ _ _ hspells (Lexer.ofSource text false) htext rfl rfl rfl
  obtain ⟨inner, hsentences, hinner⟩ :=
    tokensAll_sentences body hregular htidy hlast (.inr (.inr (.inr hlast)))
  obtain ⟨inner', found, hfound, hmoved, hsame⟩ :=
    hsentences.moved ((Moved.of_unplaced hunplaced).append (.refl [last]))
  exact ⟨hfault, inner', found, htokens ▸ hfound, hmoved.lineStart hinner, hsame⟩

end Statement

/-- The capitals of the names in a registry are apart if they are different names. -/
theorem Registry.upper_keys_nodup {registry : Registry}
    (hnames : ∀ d ∈ registry, d.name.upper.IsIdentifier)
    (hdistinct : (registry.map (·.name.upper)).Nodup) :
    (registry.map (·.name.upper.key)).Nodup := by
  rw [List.Nodup, List.pairwise_map] at hdistinct ⊢
  refine hdistinct.imp_of_mem fun {d e} hd he hne hkey => hne ?_
  exact (hnames d hd).key_inj (hnames e he) hkey

/-- Printing a program and parsing it again. The hypotheses say that the printed names are still
names and as many as before; what else a program may be is left open. -/
theorem programSource_roundTrip {body : List Statement} {registry : Registry}
    (h : Parsed body registry) (hdistinct : (registry.map (·.name.upper)).Nodup)
    (hwords : ∀ d ∈ registry, ¬ d.name.upper.IsKeyword)
    (hparams : ∀ d ∈ registry, (d.params.map Atom.lower).Nodup) :
    ∃ text found after,
      Statement.programSource body = .ok text ∧
      parseByDescent text [] = (.ok found, after) ∧
      parseByGrammar text [] = (.ok found, after) ∧
      (Statement.sameBody found (Statement.canonical body) = true ↔
        Statement.LiteralsAll
          (fun depth s => 0 < depth → ∀ c ∈ s.toList, c.toNat ∉ Literal.lineBreaks) 0 body) ∧
      (Statement.sameBody found (Statement.canonical body) = true →
        Statement.programSource found = .ok text) := by
  have hregular := h.regular
  have hdefinitions := Statement.enrollAll_regular body hregular (by simp) h.enrolls
  have hnames : ∀ d ∈ registry, d.name.IsIdentifier := fun d hd => (hdefinitions d hd).1
  have hupper : ∀ d ∈ registry, d.name.upper.IsIdentifier :=
    fun d hd => (hnames d hd).upper (hwords d hd)
  have hprintable := Statement.enrollAll_printable body hregular h.enrolls fun d hd =>
    ⟨hnames d hd, hupper d hd, hparams d hd⟩
  have hprinted : Statement.RegularAll (Statement.respellAll Literal.inflated 0 body) :=
    Statement.respellAll_regular body 0 hregular hprintable
  obtain ⟨text, hsource, htext⟩ := Statement.programSource_eq hregular
  obtain ⟨hfault, inner, found, hsentences, hinner, hsame⟩ :=
    Statement.joined_sentences hprinted (Statement.respellAll_tidy _ 0 body) htext
  have hempty : Registry.Capitals [] [] := rfl
  obtain ⟨after, henroll, _⟩ := Statement.enrollAll_of_same body found 0 hregular hsame hempty
    h.enrolls hnames (Registry.upper_keys_nodup hupper hdistinct)
  have hdescent : parseByDescent text [] = (.ok found, after) :=
    parseByDescent_eq_ok.mpr ⟨hfault, ⟨inner, hsentences⟩, henroll⟩
  have hgrammar : parseByGrammar text [] = (.ok found, after) :=
    (parseByGrammar_eq_ok hfault).mpr ⟨⟨inner, hsentences, hinner⟩, henroll⟩
  refine ⟨text, found, after, hsource, hdescent, hgrammar, ?_, fun hcanonical => ?_⟩
  · have hliterals := @Statement.sameBody_respell _ (fun _ text => text) body found 0 hregular hsame
    simp only [Literal.inflated_eq_self] at hliterals
    exact hliterals
  · rw [Statement.programSource_of_same hregular (Parsed.regular ⟨text, .inl hdescent⟩) hcanonical]
    exact hsource

/-- A form feed in a literal of a body does not survive, while names and zeros do. -/
theorem programSource_roundTrip_formFeed :
    ∃ body registry,
      parseByDescent "PROGRAM p(A) DO\nOUTPUT \"a\x0cb\", 007\nEND\nX := p(X)" [] =
        (.ok body, registry) ∧
      ∃ text found after, Statement.programSource body = .ok text ∧
        parseByDescent text [] = (.ok found, after) ∧
        parseByGrammar text [] = (.ok found, after) ∧
        ¬ Statement.sameBody found (Statement.canonical body) = true := by
  have hparse : parseByDescent "PROGRAM p(A) DO\nOUTPUT \"a\x0cb\", 007\nEND\nX := p(X)" [] =
      (.ok [.define (.text "p") [.text "A"] [.output [⟨.string, .text "a\x0cb", ⟨2, 8⟩, false⟩,
          ⟨.number, .text "007", ⟨2, 15⟩, false⟩]], .call (.text "X") (.text "p") [.text "X"]],
        [⟨.text "p", [.text "A"], [.output [⟨.string, .text "a\x0cb", ⟨2, 8⟩, false⟩,
          ⟨.number, .text "007", ⟨2, 15⟩, false⟩]]⟩]) := by
    cbv
  have hword : Lexer.wordKind (Text.upper "p") = .identifier := by decide
  obtain ⟨text, found, after, hsource, hdescent, hgrammar, hcanonical, _⟩ :=
    programSource_roundTrip ⟨_, .inl hparse⟩ (by simp)
      (List.forall_mem_singleton.mpr fun hkeyword => hkeyword hword)
      (List.forall_mem_singleton.mpr (by simp))
  refine ⟨_, _, hparse, text, found, after, hsource, hdescent, hgrammar, fun hsame => ?_⟩
  have hliteral := (hcanonical.mp hsame).1.1 _ List.mem_cons_self rfl (by decide) '\x0c' (by decide)
  exact hliteral (by decide)

end LoopLanguage
