import LoopLanguage.Proofs.Canonical

/-!
Texts that spell tokens. `Spells start cs ts finish` says that the characters `cs`, met at the
start of a line or not, are the tokens `ts` with spaces and newlines between them. Texts that spell
tokens can be put together as long as no word or number runs into the next one, and the lexer gives
the tokens that a text spells, at the places where they stand.
-/

namespace LoopLanguage

/-- Nothing in front of which a word or a number goes on. -/
def Loose (cs : List Char) : Prop := ∀ c, cs.head? = some c → Lexeme.isNameChar c = false

theorem Loose.append {a b : List Char} (ha : Loose a) (hb : Loose b) : Loose (a ++ b) := by
  cases a with
  | nil => exact hb
  | cons c a => exact ha

theorem Loose.cons {c : Char} (hc : Lexeme.isNameChar c = false) (cs : List Char) :
    Loose (c :: cs) := by
  intro d hd
  cases hd
  exact hc

/-- What may come after a lexeme: it does not go on there. -/
def Lexeme.Clear : Lexeme → List Char → Prop
  | .word _, cs => Loose cs
  | .number _, cs => Loose cs
  | _, _ => True

theorem Lexeme.Clear.append {lexeme : Lexeme} {a b : List Char} (ha : lexeme.Clear a)
    (hb : Loose b) : lexeme.Clear (a ++ b) := by
  cases lexeme with
  | word => exact Loose.append ha hb
  | number => exact Loose.append ha hb
  | _ => trivial

/-- The lexeme is read in front of whatever may come after it. -/
def Lexeme.Stands (lexeme : Lexeme) : Prop :=
  ∀ cs, lexeme.Clear cs → Lexeme.read? (lexeme.chars ++ cs) = some lexeme

inductive Spells : Bool → List Char → List Token → Bool → Prop
  | done {start : Bool} {gap : List Char} (hgap : ∀ c ∈ gap, Lexeme.isGap c = true) :
      Spells start gap [] start
  | newline {start finish : Bool} {gap cs : List Char} {ts : List Token}
      (hgap : ∀ c ∈ gap, Lexeme.isGap c = true) (rest : Spells true cs ts finish) :
      Spells start (gap ++ '\n' :: cs) ts finish
  | token {start finish : Bool} {gap cs : List Char} {ts : List Token} {lexeme : Lexeme}
      {kind : Kind} {text : String} {place : Place} (hgap : ∀ c ∈ gap, Lexeme.isGap c = true)
      (hstands : lexeme.Stands) (hdenotes : lexeme.Denotes kind text)
      (htrivia : kind.isTrivia = false) (hclear : lexeme.Clear cs)
      (rest : Spells false cs ts finish) :
      Spells start (gap ++ (lexeme.chars ++ cs)) (⟨kind, .text text, place, start⟩ :: ts) finish

namespace Spells

variable {start middle finish : Bool} {a b gap cs : List Char} {ts us : List Token}

theorem gaps (hgap : ∀ c ∈ gap, Lexeme.isGap c = true) (h : Spells start cs ts finish) :
    Spells start (gap ++ cs) ts finish := by
  have hall : ∀ {more : List Char}, (∀ c ∈ more, Lexeme.isGap c = true) →
      ∀ c ∈ gap ++ more, Lexeme.isGap c = true := by
    intro more hmore c hc
    rcases List.mem_append.mp hc with hc | hc
    · exact hgap c hc
    · exact hmore c hc
  cases h with
  | done hmore => exact .done (hall hmore)
  | newline hmore rest =>
    rw [← List.append_assoc]
    exact .newline (hall hmore) rest
  | token hmore hstands hdenotes htrivia hclear rest =>
    rw [← List.append_assoc]
    exact .token (hall hmore) hstands hdenotes htrivia hclear rest

theorem append (ha : Spells start a ts middle) (hb : Spells middle b us finish) (hloose : Loose b) :
    Spells start (a ++ b) (ts ++ us) finish := by
  induction ha with
  | done hgap => exact hb.gaps hgap
  | newline hgap _ ih =>
    rw [List.append_assoc]
    exact .newline hgap (ih hb)
  | token hgap hstands hdenotes htrivia hclear _ ih =>
    rw [List.append_assoc, List.append_assoc]
    exact .token hgap hstands hdenotes htrivia (hclear.append hloose) (ih hb)

theorem space (h : Spells start cs ts finish) : Spells start (' ' :: cs) ts finish :=
  @gaps _ _ [' '] _ _ (by simp [Lexeme.isGap]) h

end Spells

namespace Lexeme

theorem takeWhile_append {p : Char → Bool} {a b : List Char} (ha : ∀ c ∈ a, p c = true)
    (hb : ∀ c, b.head? = some c → p c = false) : (a ++ b).takeWhile p = a := by
  rw [List.takeWhile_append_of_pos ha]
  cases b with
  | nil => simp
  | cons c b => rw [List.takeWhile_cons_of_neg (by simp [hb c rfl]), List.append_nil]

theorem word_stands {word : List Char} (h : isName word = true) : (Lexeme.word word).Stands := by
  intro cs hcs
  cases word with
  | nil => cases h
  | cons c word =>
    simp only [isName, Bool.and_eq_true, List.all_eq_true] at h
    have hother : c ≠ '\n' ∧ c ≠ '#' ∧ c ≠ '/' := by
      refine ⟨?_, ?_, ?_⟩ <;> rintro rfl <;> exact absurd h.1 (by decide)
    have hall : ∀ d ∈ c :: word, isNameChar d = true := by
      intro d hd
      cases hd with
      | head => exact isNameChar_of_isNameStart h.1
      | tail _ hd => exact h.2 d hd
    rw [Lexeme.chars, List.cons_append, read?]
    simp only [hother, h.1, ↓reduceIte, decide_false, Bool.false_and, Bool.or_self,
      Bool.false_eq_true]
    rw [← List.cons_append, takeWhile_append hall hcs]

theorem number_stands {digits : List Char} (h : isNumeral digits = true) :
    (Lexeme.number digits).Stands := by
  intro cs hcs
  simp only [isNumeral, Bool.and_eq_true, List.all_eq_true] at h
  cases digits with
  | nil => exact absurd h.1 (by decide)
  | cons c digits =>
    have hc := h.2 c (by simp)
    have hstart : isNameStart c = false := by
      have hrange := Char.isDigit_iff_toNat.mp hc
      have hnine : '9'.toNat = 57 := rfl
      exact Text.ascii_forall (P := fun c => c.isDigit = true → isNameStart c = false) (by decide)
        (by omega) hc
    have hother : c ≠ '\n' ∧ c ≠ '#' ∧ c ≠ '/' := by
      refine ⟨?_, ?_, ?_⟩ <;> rintro rfl <;> exact absurd hc (by decide)
    have hboundary : ∀ d, cs.head? = some d → d.isDigit = false := by
      intro d hd
      have hloose := hcs d hd
      simp only [isNameChar, Char.isAlphanum, Bool.or_eq_false_iff] at hloose
      exact hloose.1.2
    rw [Lexeme.chars, List.cons_append, read?]
    simp only [hother, hstart, hc, ↓reduceIte, decide_false, Bool.false_and, Bool.or_self,
      Bool.false_eq_true]
    rw [← List.cons_append, takeWhile_append h.2 hboundary]

theorem string_stands (text : List Char) : (Lexeme.string (Literal.encode text)).Stands := by
  intro cs _
  have hbody := Literal.body_encode_append text cs
  simp only [Lexeme.chars, List.cons_append, List.append_assoc, List.nil_append]
  simp [read?, hbody, show isNameStart '"' = false by decide,
    show '"'.isDigit = false by decide]

theorem assign_stands : Lexeme.assign.Stands := by
  intro cs _
  rfl

theorem mark_stands {c : Char} (h : isMark c = true) : (Lexeme.mark c).Stands := by
  intro cs _
  simp only [isMark, Bool.or_eq_true, decide_eq_true_eq] at h
  rcases h with (((rfl | rfl) | rfl) | rfl) | rfl <;> rfl

end Lexeme

theorem Lexer.markKind_not_trivia (c : Char) : (markKind c).isTrivia = false := by
  unfold markKind
  split <;> rfl

namespace Spells

variable {start finish : Bool} {cs : List Char} {ts : List Token} {place : Place}

theorem word {word : String} (hword : Lexeme.isName word.toList = true) (hloose : Loose cs)
    (rest : Spells false cs ts finish) :
    Spells start (word.toList ++ cs) (⟨Lexer.wordKind word, .text word, place, start⟩ :: ts)
      finish := by
  have hdenotes := Lexeme.Denotes.word word.toList
  rw [String.ofList_toList] at hdenotes
  exact @token start finish [] cs ts _ _ _ place (by simp) (Lexeme.word_stands hword) hdenotes
    (Lexeme.wordKind_not_trivia word) hloose rest

theorem number {digits : String} (hdigits : Lexeme.isNumeral digits.toList = true)
    (hloose : Loose cs) (rest : Spells false cs ts finish) :
    Spells start (digits.toList ++ cs) (⟨.number, .text digits, place, start⟩ :: ts) finish := by
  have hdenotes := Lexeme.Denotes.number digits.toList
  rw [String.ofList_toList] at hdenotes
  exact @token start finish [] cs ts _ _ _ place (by simp) (Lexeme.number_stands hdigits) hdenotes
    rfl hloose rest

theorem string (text : String) (rest : Spells false cs ts finish) :
    Spells start ('"' :: Literal.encode text.toList ++ ['"'] ++ cs)
      (⟨.string, .text text, place, start⟩ :: ts) finish := by
  have hdenotes := Lexeme.Denotes.string (Literal.decode_encode text.toList)
  rw [String.ofList_toList] at hdenotes
  exact @token start finish [] cs ts _ _ _ place (by simp) (Lexeme.string_stands text.toList)
    hdenotes rfl trivial rest

theorem assign (rest : Spells false cs ts finish) :
    Spells start (':' :: '=' :: cs) (⟨.assign, .text ":=", place, start⟩ :: ts) finish :=
  @token start finish [] cs ts _ _ _ place (by simp) Lexeme.assign_stands .assign rfl trivial rest

theorem mark {c : Char} (hc : Lexeme.isMark c = true) (rest : Spells false cs ts finish) :
    Spells start (c :: cs)
      (⟨Lexer.markKind c, .text (String.ofList [c]), place, start⟩ :: ts) finish :=
  @token start finish [] cs ts _ _ _ place (by simp) (Lexeme.mark_stands hc) (.mark c)
    (Lexer.markKind_not_trivia c) trivial rest

end Spells

namespace Lexer

/-- What the lexer gives where a lexeme stands that denotes a token. -/
theorem scan_of_denotes {lexer : Lexer} {lexeme : Lexeme} {kind : Kind} {text : String}
    (hread : Lexeme.read? lexer.skipGaps.rest = some lexeme) (hdenotes : lexeme.Denotes kind text)
    (hloose : ∀ digits, lexeme = .number digits → Loose (lexer.skipGaps.skip digits).rest) :
    scan lexer = (.ok ⟨kind, .text text, lexer.skipGaps.place, lexer.lineStart⟩,
      lexer.skipGaps.skip lexeme.chars) := by
  unfold scan
  cases hdenotes with
  | number digits =>
    simp only [hread]
    cases hrest : (lexer.skipGaps.skip digits).rest with
    | nil => rfl
    | cons c cs =>
      have hc : Lexeme.isNameStart c = false := by
        have hchar := hloose digits rfl c (by rw [hrest, List.head?_cons])
        cases hstart : Lexeme.isNameStart c with
        | false => rfl
        | true => rw [Lexeme.isNameChar_of_isNameStart hstart] at hchar; cases hchar
      simp only [hc]
      rfl
  | string htext =>
    simp only [hread, htext]
    rfl
  | _ =>
    simp only [hread]
    rfl

theorem not_gap_of_denotes {c : Char} {cs : List Char} {lexeme : Lexeme} {kind : Kind}
    {text : String} (hread : Lexeme.read? (c :: cs) = some lexeme)
    (hdenotes : lexeme.Denotes kind text) : Lexeme.isGap c = false := by
  cases hgap : Lexeme.isGap c with
  | false => rfl
  | true =>
    simp only [Lexeme.isGap, Bool.or_eq_true, decide_eq_true_eq] at hgap
    have hstray : Lexeme.read? (c :: cs) = some (.stray c) := by
      rcases hgap with ((rfl | rfl) | rfl) | rfl <;> rfl
    rw [hstray] at hread
    cases hread
    cases hdenotes

/-- Spaces before a lexeme are skipped. -/
theorem skipGaps_rest {lexer : Lexer} {gap cs : List Char}
    (hgap : ∀ c ∈ gap, Lexeme.isGap c = true) (hcs : ∀ c, cs.head? = some c → Lexeme.isGap c = false)
    (h : lexer.rest = gap ++ cs) : lexer.skipGaps.rest = cs := by
  rw [skipGaps, skip, h, Lexeme.takeWhile_append hgap hcs]
  exact List.drop_left

end Lexer

/-- The token as it is, its place aside. -/
def Token.unplaced (t : Token) : Token := { t with place := ⟨1, 1⟩ }

/-- The lexer gives the tokens that a text spells. -/
theorem Spells.tokens {start finish : Bool} {cs : List Char} {ts : List Token}
    (h : Spells start cs ts finish) {lexer : Lexer} (hrest : lexer.rest = cs)
    (hpushed : lexer.pushed = none) (hkeep : lexer.keepTrivia = false)
    (hstart : lexer.lineStart = start) :
    ∃ us last, lexer.tokens.1 = us ++ [last] ∧ lexer.tokens.2.1 = none ∧ last.kind = .eof ∧
      us.map Token.unplaced = ts.map Token.unplaced := by
  induction h generalizing lexer with
  | @done start gap hgap =>
    have hskip : lexer.skipGaps.rest = [] :=
      Lexer.skipGaps_rest hgap (by simp) (by rw [hrest, List.append_nil])
    have hscan : Lexer.scan lexer =
        (.ok ⟨.eof, .absent, lexer.skipGaps.place, lexer.lineStart⟩, lexer.skipGaps) := by
      unfold Lexer.scan
      simp only [hskip, Lexeme.read?]
      rfl
    have hnext := Lexer.next_of_wanted hpushed hscan (by simp [Kind.isTrivia])
    have htokens := Lexer.tokens_of_eof hnext rfl
    exact ⟨[], _, congrArg Prod.fst htokens, congrArg (·.2.1) htokens, rfl, rfl⟩
  | @newline start finish gap cs ts hgap _ ih =>
    have hskip : lexer.skipGaps.rest = '\n' :: cs :=
      Lexer.skipGaps_rest hgap (by rintro c ⟨⟩; rfl) hrest
    have hscan := Lexer.scan_of_denotes (by rw [hskip]; rfl) .newline (by rintro digits ⟨⟩)
    rw [Lexer.tokens_of_unwanted hpushed hscan (by simp [Kind.isTrivia, hkeep])]
    refine ih ?_ hpushed hkeep rfl
    show (lexer.skipGaps.skip ['\n']).rest = cs
    rw [Lexer.skip, hskip]
    rfl
  | @token start finish gap cs ts lexeme kind text place hgap hstands hdenotes htrivia hclear _ ih =>
    have hread := hstands cs hclear
    have hhead : ∀ c, (lexeme.chars ++ cs).head? = some c → Lexeme.isGap c = false := by
      cases hchars : lexeme.chars ++ cs with
      | nil => simp
      | cons c rest =>
        rw [hchars] at hread
        rintro _ ⟨⟩
        exact Lexer.not_gap_of_denotes hread hdenotes
    have hskip : lexer.skipGaps.rest = lexeme.chars ++ cs :=
      Lexer.skipGaps_rest hgap hhead hrest
    have hafter : (lexer.skipGaps.skip lexeme.chars).rest = cs := by
      rw [Lexer.skip, hskip]
      exact List.drop_left
    have hscan := Lexer.scan_of_denotes (by rw [hskip]; exact hread) hdenotes (by
      rintro digits rfl
      exact hafter.symm ▸ hclear)
    have hnext := Lexer.next_of_wanted hpushed hscan (by simp [htrivia])
    have htokens := Lexer.tokens_of_ok hnext hdenotes.kind_ne_eof
    have hline : ∀ before, Lexer.startsLine kind before = false := by
      intro before
      cases kind <;> first | rfl | cases htrivia
    obtain ⟨us, last, hus, hfault, hlast, hmap⟩ :=
      @ih ((lexer.skipGaps.skip lexeme.chars).noted
        ⟨kind, .text text, lexer.skipGaps.place, lexer.lineStart⟩) hafter hpushed hkeep (hline _)
    refine ⟨⟨kind, .text text, lexer.skipGaps.place, lexer.lineStart⟩ :: us, last, ?_, ?_, hlast, ?_⟩
    · rw [htokens]
      exact congrArg _ hus
    · rw [htokens]
      exact hfault
    · rw [List.map_cons, List.map_cons, hmap, hstart]
      rfl

end LoopLanguage
