import Mathlib
import LoopLanguage.Proofs.Concatenation
import LoopLanguage.Proofs.Positions

/-!
Lexical errors and the grammar. A lexical error comes from a flawed lexeme. The grammar refuses a
literal that is not closed, a bad escape and a stray character like the lexer does. But to the
grammar a number and the word that runs into it are two pieces, and there is one word that may come
after a number, the `END` of a block. Where all flaws of a source are of that kind, the grammar
reads the source as if there were a blank after each number.
-/

namespace LoopLanguage

/-! ### What comes after a number in a sentence -/

/-- After each number comes a comma, or its statement ends. -/
def NumbersEnd (ts : List Token) : Prop :=
  ts.IsChain fun t u => t.kind = .number → u.kind = .comma ∨ u.Ends

namespace NumbersEnd

variable {t : Token} {ts us : List Token}

theorem single (t : Token) : NumbersEnd [t] := List.isChain_singleton t

theorem cons (ht : t.kind ≠ .number) (h : NumbersEnd ts) : NumbersEnd (t :: ts) :=
  List.isChain_cons.mpr ⟨fun _ _ hnumber => absurd hnumber ht, h⟩

theorem append (hts : ∀ t ∈ ts, t.kind ≠ .number) (h : NumbersEnd us) : NumbersEnd (ts ++ us) := by
  induction ts with
  | nil => exact h
  | cons t ts ih => exact cons (hts t (by simp)) (ih fun u hu => hts u (by simp [hu]))

theorem of_ne (hts : ∀ t ∈ ts, t.kind ≠ .number) : NumbersEnd ts := by
  have hnil : NumbersEnd (ts ++ []) := append hts List.isChain_nil
  rwa [List.append_nil] at hnil

end NumbersEnd

theorem Items.numbersEnd {kinds : List Kind} {ts items : List Token} (h : Items kinds ts items)
    (first : Token) : NumbersEnd (first :: ts) := by
  induction h generalizing first with
  | done => exact .single first
  | @trailing comma hcomma _ =>
    exact List.isChain_cons_cons.mpr ⟨fun _ => .inl hcomma, NumbersEnd.single comma⟩
  | @more comma item ts items hcomma _ _ _ _ ih =>
    have hrest : NumbersEnd (comma :: item :: ts) := .cons (by simp [hcomma]) (ih item)
    exact List.isChain_cons_cons.mpr ⟨fun _ => .inl hcomma, hrest⟩

theorem ItemList.numbersEnd {kinds : List Kind} {ts items : List Token}
    (h : ItemList kinds ts items) : NumbersEnd ts := by
  cases h with
  | mk _ rest => exact rest.numbersEnd _

mutual

theorem Sentence.numbersEnd : ∀ {ts inner : List Token} {s : Statement}, Sentence ts inner s →
    NumbersEnd ts
  | _, _, _, .assign htarget hsign _ _ =>
    .cons (by simp [htarget]) (.cons (by simp [hsign]) (.single _))
  | _, _, _, .increment htarget hsign hoperand hplus _ _ =>
    .cons (by simp [htarget]) (.cons (by simp [hsign]) (.cons (by simp [hoperand])
      (.cons (by simp [hplus]) (.single _))))
  | _, _, _, .call htarget hsign hcallee hleft hargs =>
    .cons (by simp [htarget]) (.cons (by simp [hsign]) (.cons (by simp [hcallee])
      (.cons (by simp [hleft]) (.of_ne hargs.ne_number))))
  | _, _, _, .input hword htargets => .cons (by simp [hword]) htargets.numbersEnd
  | _, _, _, .output hword hitems _ => .cons (by simp [hword]) hitems.numbersEnd
  | _, _, _, .loop hword hcount hopening hbody =>
    .cons (by simp [hword]) (.cons (by simp [hcount]) (.append hopening.ne_number hbody.numbersEnd))
  | _, _, _, .define hword hname hleft hparams _ hopening hbody =>
    .cons (by simp [hword]) (.cons (by simp [hname]) (.cons (by simp [hleft])
      (.append hparams.ne_number (.cons (by simp [hopening]) hbody.numbersEnd))))

theorem Sentences.numbersEnd : ∀ {close : Kind} {ts inner : List Token} {body : List Statement},
    Sentences close ts inner body → NumbersEnd ts
  | _, _, _, _, .close _ => .single _
  | _, _, _, _, .semicolon h rest => .cons (by simp [h]) rest.numbersEnd
  | _, _, _, _, .cons first hnext rest => by
    refine List.IsChain.append first.numbersEnd rest.numbersEnd fun t _ u hu => ?_
    obtain rfl : _ = u := Option.some.inj hu
    exact fun _ => .inr hnext

end

/-! ### Flaws -/

namespace Lexeme

/-- A lexeme, with the text after it, from which the error comes. -/
inductive Flaw : Lexeme × List Char → Error → Prop
  | number {digits rest : List Char} (h : ¬ Loose rest) (place : Place) :
      Flaw (.number digits, rest)
        (.malformedNumber (String.ofList (digits ++ rest.takeWhile isNameChar)) place)
  | escape {raw : List Char} (h : Literal.decode raw = none) (rest : List Char) (place : Place) :
      Flaw (.string raw, rest) (.invalidEscape place.text)
  | opened (raw rest : List Char) (place : Place) :
      Flaw (.opened raw, rest) (.unterminatedString place)
  | stray (c : Char) (rest : List Char) (place : Place) :
      Flaw (.stray c, rest) (.unexpectedCharacter c place)

/-- A number right behind which the word `END` stands. -/
def RunsIntoEnd (l : Lexeme × List Char) : Prop :=
  (∃ digits, l.1 = .number digits) ∧ read? l.2 = some (.word "END".toList)

/-- Every lexeme of a text was read somewhere, and after it the text goes on. -/
theorem row_split {cs : List Char} {l : Lexeme × List Char} (h : l ∈ row cs) :
    ∃ front text, row cs = front ++ l :: row l.2 ∧ read? text = some l.1 ∧
      l.2 = text.drop l.1.chars.length := by
  induction hlength : cs.length using Nat.strongRecOn generalizing cs with
  | ind n ih =>
    cases hread : read? (trim cs) with
    | none =>
      rw [row_of_none hread] at h
      cases h
    | some lexeme =>
      rw [row_of_some hread] at h ⊢
      rcases List.mem_cons.mp h with rfl | h
      · exact ⟨[], trim cs, rfl, hread, rfl⟩
      · have hshort := length_drop_chars_lt hread
        have htrim := length_trim_le cs
        obtain ⟨front, text, hrow, htext⟩ := ih _ (by omega) h rfl
        exact ⟨_ :: front, text, by rw [hrow]; rfl, htext⟩

/-- What runs into a number is a word. -/
theorem word_of_not_loose {text digits : List Char} (h : read? text = some (.number digits))
    (hloose : ¬ Loose (text.drop digits.length)) :
    read? (trim (text.drop digits.length)) =
        some (.word ((text.drop digits.length).takeWhile isNameChar)) ∧
      trim (text.drop digits.length) = text.drop digits.length := by
  obtain ⟨c, hc, hname⟩ : ∃ c, (text.drop digits.length).head? = some c ∧
      isNameChar c = true := by
    simpa [Loose] using hloose
  have hdigit := not_digit_after_number h hc
  have hstart : isNameStart c = true := by
    simpa [isNameStart, isNameChar, Char.isAlphanum, hdigit] using hname
  have hgap : isGap c = false := by
    cases hgap : isGap c with
    | false => rfl
    | true =>
      simp only [isGap, Bool.or_eq_true, decide_eq_true_eq] at hgap
      rcases hgap with ((rfl | rfl) | rfl) | rfl <;> exact absurd hname (by decide)
  obtain ⟨cs, hcs⟩ := List.head?_eq_some_iff.mp hc
  rw [hcs]
  have htrim : trim (c :: cs) = c :: cs := by simp [trim, hgap]
  refine ⟨?_, htrim⟩
  have hword : isName ((c :: cs).takeWhile isNameChar) = true := by
    rw [List.takeWhile_cons_of_pos hname]
    simp [isName, hstart]
  have hrest : Loose ((c :: cs).dropWhile isNameChar) := by
    rw [← drop_takeWhile]
    exact fun d hd => takeWhile_stops hd
  have hread := word_stands hword _ hrest
  rw [chars, List.takeWhile_append_dropWhile] at hread
  rw [htrim, hread]

end Lexeme

/-- The error that the lexer stops with comes from a flaw of the source. -/
theorem Lexer.Course.flaw {lexer : Lexer} (h : Course lexer) {e : Error}
    (hfault : lexer.tokens.2.1 = some e) : ∃ l ∈ Lexeme.row lexer.rest, Lexeme.Flaw l e := by
  induction h with
  | @fault lexer after e' hp hscan =>
    rw [tokens_of_error (next_of_error hp hscan)] at hfault
    cases hfault
    cases scan_eq_error hscan with
    | number hread hstart htail =>
      obtain ⟨c, cs, hcs, hc⟩ := hstart
      rw [Lexeme.row_of_some hread, htail]
      refine ⟨_, List.mem_cons_self, .number (fun hloose => ?_) _⟩
      have hchar := hloose c (congrArg List.head? hcs)
      rw [Lexeme.isNameChar_of_isNameStart hc] at hchar
      cases hchar
    | escape hread hdecode =>
      rw [Lexeme.row_of_some hread]
      exact ⟨_, List.mem_cons_self, .escape hdecode _ _⟩
    | opened hread =>
      rw [Lexeme.row_of_some hread]
      exact ⟨_, List.mem_cons_self, .opened _ _ _⟩
    | stray hread =>
      rw [Lexeme.row_of_some hread]
      exact ⟨_, List.mem_cons_self, .stray _ _ _⟩
  | finish hp hread hscan =>
    rw [tokens_of_eof (next_of_wanted hp hscan (by simp [Kind.isTrivia])) rfl] at hfault
    cases hfault
  | @lexeme lexer lexeme kind text hp hread hdenotes hscan _ ih =>
    rw [Lexeme.row_of_some hread]
    have hlater : ∃ l ∈ Lexeme.row (lexer.skipGaps.skip lexeme.chars).rest, Lexeme.Flaw l e := by
      cases hwanted : kind.isTrivia && !lexer.keepTrivia with
      | true =>
        rw [tokens_of_unwanted hp hscan hwanted] at hfault
        exact ih hfault
      | false =>
        rw [tokens_of_ok (next_of_wanted hp hscan hwanted) hdenotes.kind_ne_eof] at hfault
        exact ih hfault
    obtain ⟨l, hl, hflaw⟩ := hlater
    exact ⟨l, List.mem_cons_of_mem _ hl, hflaw⟩

/-! ### Flaws that the grammar does not see -/

namespace Grammar

theorem pieceOf?_number (digits rest : List Char) :
    pieceOf? (.number digits, rest) = some ⟨.number, String.ofList digits, ⟨1, 1⟩⟩ := rfl

theorem pieceOf?_word (word rest : List Char) :
    pieceOf? (.word word, rest) =
      some ⟨wordTerminal (String.ofList word), String.ofList word, ⟨1, 1⟩⟩ := rfl

/-- Which word may come after a number. -/
theorem eq_end_of_wordKind {word : String} (h : Lexer.wordKind word = .kwEnd) : word = "END" := by
  unfold Lexer.wordKind at h
  cases hlookup : Lexer.keywords.lookup word with
  | none =>
    rw [hlookup] at h
    cases h
  | some kind =>
    rw [hlookup] at h
    have hentries : ∀ entry ∈ Lexer.keywords, entry.2 = .kwEnd → entry.1 = "END" := by decide
    exact hentries _ (Lexeme.mem_of_lookup hlookup) h

section Accepted

variable {source : String} {registry after : Registry} {body : List Statement}

/-- A word that runs into a number of a source which the grammar accepts is `END`. -/
theorem runsIntoEnd_of_ok (h : parseByGrammar source registry = (.ok body, after))
    {digits rest : List Char} (hl : (.number digits, rest) ∈ Lexeme.row source.toList)
    (hloose : ¬ Loose rest) : Lexeme.RunsIntoEnd (.number digits, rest) := by
  obtain ⟨hfault, hsentences, _⟩ := parseByGrammar_ok h
  obtain ⟨_, hsentences⟩ := hsentences ⟨.eof, .absent, ⟨1, 1⟩, false⟩ rfl
  have hchain : ((Feed.ofSource source).pieces.map Piece.unplaced).IsChain
      fun p q => p.flat.kind = .number → q.flat.kind = .comma ∨ q.flat.Ends :=
    (List.isChain_map _).mpr
      ((List.isChain_map _).mp (List.IsChain.left_of_append hsentences.numbersEnd))
  obtain ⟨front, text, hrow, hread, hrest⟩ := Lexeme.row_split hl
  dsimp only [Lexeme.chars] at hread hrest
  subst hrest
  obtain ⟨hword, htrim⟩ := Lexeme.word_of_not_loose hread hloose
  rw [(Feed.ofSource_row source).2 hfault, hrow, Lexeme.row_of_some hword, List.filterMap_append,
    List.filterMap_cons_some (pieceOf?_number _ _), List.filterMap_cons_some (pieceOf?_word _ _),
    List.isChain_append_cons_cons] at hchain
  -- No piece opens a line, so of the ends of a statement only the words and marks are left.
  have hkind := hchain.2.1 rfl
  simp only [Token.Ends, Piece.flat_kind, Piece.flat_lineStart, Bool.false_eq_true, false_or,
    wordTerminal_kind] at hkind
  have hend : Lexer.wordKind
      (String.ofList ((text.drop digits.length).takeWhile Lexeme.isNameChar)) = .kwEnd := by
    have hkinds : ∀ kind ∈ Kind.identifier :: Lexer.keywords.map Prod.snd,
        kind = .comma ∨ kind = .semicolon ∨ kind = .kwEnd ∨ kind = .eof → kind = .kwEnd := by decide
    exact hkinds _ (Lexeme.wordKind_mem _) hkind
  have hletters : (text.drop digits.length).takeWhile Lexeme.isNameChar = "END".toList := by
    rw [← eq_end_of_wordKind hend, String.toList_ofList]
  rw [htrim, hletters] at hword
  exact ⟨⟨digits, rfl⟩, hword⟩

/-- All flaws of a source that the grammar accepts are numbers that `END` runs into. -/
theorem flaws_of_ok (h : parseByGrammar source registry = (.ok body, after)) :
    ∀ l ∈ Lexeme.row source.toList, ∀ e, Lexeme.Flaw l e → Lexeme.RunsIntoEnd l := by
  have hfault := (parseByGrammar_ok h).1
  obtain ⟨hfits, hpieces⟩ := Feed.ofSource_row source
  intro l hl e hflaw
  cases hflaw with
  | number hloose place => exact runsIntoEnd_of_ok h hl hloose
  | @escape raw hdecode rest place =>
    have hpiece : (⟨.string, String.ofList (Lexeme.string raw).chars, ⟨1, 1⟩⟩ : Piece) ∈
        (Feed.ofSource source).pieces.map Piece.unplaced := by
      rw [hpieces hfault]
      exact List.mem_filterMap.mpr ⟨_, hl, rfl⟩
    obtain ⟨piece, hmem, hunplaced⟩ := List.mem_map.mp hpiece
    have hsound : piece.unplaced.Sound := parseByGrammar_sound h piece hmem
    rw [hunplaced] at hsound
    have hliteral := hsound rfl
    simp [Piece.literal, Lexeme.chars, hdecode] at hliteral
  | opened raw rest place =>
    obtain ⟨terminal, hterminal⟩ := hfits.mp hfault _ hl
    cases hterminal
  | stray c rest place =>
    obtain ⟨terminal, hterminal⟩ := hfits.mp hfault _ hl
    cases hterminal

end Accepted

end Grammar

/-! ### A blank after each number -/

namespace Lexeme

/-- What is put after a lexeme to keep it from the next one. -/
def spacing : Lexeme → List Char
  | .number _ => [' ']
  | _ => []

/-- The text with a blank after each number. -/
def spaced (cs : List Char) : List Char :=
  match _hread : read? (trim cs) with
  | none => cs
  | some lexeme =>
    cs.takeWhile isGap ++ (lexeme.chars ++
      (lexeme.spacing ++ spaced ((trim cs).drop lexeme.chars.length)))
termination_by cs.length
decreasing_by exact Nat.lt_of_lt_of_le (length_drop_chars_lt _hread) (length_trim_le cs)

theorem spaced_of_none {cs : List Char} (h : read? (trim cs) = none) : spaced cs = cs := by
  rw [spaced]
  split
  · rfl
  · next hread => rw [h] at hread; cases hread

theorem spaced_of_some {cs : List Char} {lexeme : Lexeme} (h : read? (trim cs) = some lexeme) :
    spaced cs = cs.takeWhile isGap ++ (lexeme.chars ++
      (lexeme.spacing ++ spaced ((trim cs).drop lexeme.chars.length))) := by
  rw [spaced]
  split
  · next hread => rw [h] at hread; cases hread
  · next found hread =>
    obtain rfl : found = lexeme := Option.some.inj (hread.symm.trans h)
    rfl

theorem trim_eq_dropWhile (cs : List Char) : trim cs = cs.dropWhile isGap := drop_takeWhile _ _

theorem head?_spaced (cs : List Char) : (spaced cs).head? = cs.head? := by
  cases hread : read? (trim cs) with
  | none => rw [spaced_of_none hread]
  | some lexeme =>
    obtain ⟨rest, hrest⟩ := read?_front hread
    have hne : cs.takeWhile isGap ++ lexeme.chars ≠ [] := by simp [chars_ne_nil hread]
    have hcs : cs = cs.takeWhile isGap ++ lexeme.chars ++ rest := by
      rw [List.append_assoc, ← hrest, trim_eq_dropWhile, List.takeWhile_append_dropWhile]
    rw [spaced_of_some hread, ← List.append_assoc, List.head?_append_of_ne_nil _ hne]
    conv_rhs => rw [hcs]
    rw [List.head?_append_of_ne_nil _ hne]

theorem loose_after_word {cs word : List Char} (h : read? cs = some (.word word)) :
    Loose (cs.drop word.length) := by
  cases cs with
  | nil => cases h
  | cons c cs =>
    rw [read?] at h
    repeat' split at h
    all_goals cases h
    exact fun d hd => takeWhile_stops hd

theorem isMark_of_read? {cs : List Char} {c : Char} (h : read? cs = some (.mark c)) :
    isMark c = true := by
  cases cs with
  | nil => cases h
  | cons d cs =>
    rw [read?] at h
    repeat' split at h
    all_goals cases h
    assumption

/-- A comment goes on up to the line break. -/
theorem comment_again {cs text more : List Char} (h : read? cs = some (.comment text))
    (hmore : more.head? = (cs.drop text.length).head?) :
    read? (text ++ more) = some (.comment text) := by
  cases cs with
  | nil => cases h
  | cons c cs =>
    rw [read?] at h
    repeat' split at h
    all_goals cases h
    next hline hc =>
    have hstop : ∀ d, more.head? = some d → decide (d ≠ '\n') = false :=
      fun d hd => takeWhile_stops (hmore.symm.trans hd)
    have hall : ∀ d ∈ (c :: cs).takeWhile (fun c => decide (c ≠ '\n')), decide (d ≠ '\n') = true :=
      List.all_eq_true.mp List.all_takeWhile
    have hwhile := takeWhile_append hall hstop
    rw [List.takeWhile_cons_of_pos (by simpa using hline)] at hwhile ⊢
    rw [List.cons_append, read?, if_neg hline, if_pos, ← List.cons_append, hwhile]
    -- the second slash of a comment belongs to it
    simp only [Bool.or_eq_true, Bool.and_eq_true, decide_eq_true_eq] at hc ⊢
    refine hc.imp id fun hslash => ⟨hslash.1, ?_⟩
    obtain ⟨ds, rfl⟩ := List.head?_eq_some_iff.mp hslash.2
    rfl

end Lexeme

/-- A literal ends at its quote, whatever comes after it. -/
theorem Literal.body_again {cs raw rest : List Char} (h : body cs = (raw, some rest))
    (more : List Char) : body (raw ++ '"' :: more) = (raw, some more) := by
  fun_induction body cs generalizing raw with
  | case1 => simp at h
  | case2 cs =>
    obtain ⟨rfl, -⟩ := Prod.mk.inj h
    rfl
  | case3 cs => simp at h
  | case4 c cs hc inner _ hinner ih =>
    obtain ⟨rfl, rfl⟩ := Prod.mk.inj h
    simp [body, hc, ih hinner]
  | case5 cs => simp at h
  | case6 c cs hquote hslash hc inner _ hinner ih =>
    obtain ⟨rfl, rfl⟩ := Prod.mk.inj h
    have hc' : c ≠ '\\' := by
      rintro rfl
      cases cs with
      | nil => simp [body] at hinner
      | cons d cs => exact hslash d cs rfl rfl
    rw [List.cons_append, body]
    · simp [hc, ih hinner]
    · exact hquote
    · exact fun d ds heq => absurd heq hc'

namespace Lexeme

theorem string_again {cs raw : List Char} (h : read? cs = some (.string raw)) (more : List Char) :
    read? ((Lexeme.string raw).chars ++ more) = some (.string raw) := by
  cases cs with
  | nil => cases h
  | cons c cs =>
    rw [read?] at h
    repeat' split at h
    all_goals cases h
    next hbody =>
    have hagain := Literal.body_again hbody more
    simp only [chars, List.cons_append, List.append_assoc, List.nil_append]
    simp [read?, hagain, show isNameStart '"' = false by decide, show '"'.isDigit = false by decide]

/-- A lexeme that fits a terminal is still read when a blank is put after each number. -/
theorem read?_spaced {cs : List Char} {lexeme : Lexeme} (h : read? cs = some lexeme)
    (hfits : Grammar.Fits (lexeme, cs.drop lexeme.chars.length)) :
    read? (lexeme.chars ++ (lexeme.spacing ++ spaced (cs.drop lexeme.chars.length))) =
      some lexeme := by
  obtain ⟨terminal, hterminal⟩ := hfits
  cases lexeme with
  | newline => rfl
  | comment text => exact comment_again h (head?_spaced _)
  | word word =>
    have hloose : Loose (spaced (cs.drop word.length)) := by
      intro c hc
      rw [head?_spaced] at hc
      exact loose_after_word h c hc
    exact word_stands (isName_of_read? h) _ hloose
  | number digits => exact number_stands (isNumeral_of_read? h) _ (Loose.cons (by decide) _)
  | string raw => exact string_again h _
  | assign => rfl
  | mark c => exact mark_stands (isMark_of_read? h) _ trivial
  | opened raw => cases hterminal
  | stray c => cases hterminal

theorem trim_append {gap cs : List Char} (hgap : ∀ c ∈ gap, isGap c = true)
    (hcs : ∀ c, cs.head? = some c → isGap c = false) : trim (gap ++ cs) = cs := by
  rw [trim, takeWhile_append hgap hcs]
  exact List.drop_left

/-- The lexemes of a text that has a blank after each number. -/
theorem row_spaced {cs : List Char} (h : ∀ l ∈ row cs, Grammar.Fits l) :
    row (spaced cs) = (row cs).map fun l => (l.1, l.1.spacing ++ spaced l.2) := by
  induction hlength : cs.length using Nat.strongRecOn generalizing cs with
  | ind n ih =>
    cases hread : read? (trim cs) with
    | none =>
      rw [spaced_of_none hread, row_of_none hread]
      rfl
    | some lexeme =>
      have hshort := length_drop_chars_lt hread
      have hle := length_trim_le cs
      rw [row_of_some hread, List.forall_mem_cons] at h
      have hagain := read?_spaced hread h.1
      have hhead : ∀ c, (lexeme.chars ++ (lexeme.spacing ++
          spaced ((trim cs).drop lexeme.chars.length))).head? = some c → isGap c = false := by
        intro c hc
        obtain ⟨rest, hrest⟩ := read?_front hread
        rw [List.head?_append_of_ne_nil _ (chars_ne_nil hread),
          ← List.head?_append_of_ne_nil _ (chars_ne_nil hread), ← hrest] at hc
        exact takeWhile_stops hc
      have hgap : ∀ c ∈ cs.takeWhile isGap, isGap c = true :=
        List.all_eq_true.mp List.all_takeWhile
      have htrim := trim_append hgap hhead
      have hspacing : ∀ more, row (lexeme.spacing ++ more) = row more := by
        intro more
        cases lexeme <;> first | rfl | (rw [row, row]; rfl)
      rw [spaced_of_some hread, row_of_some (by rw [htrim]; exact hagain), htrim, List.drop_left,
        row_of_some hread, hspacing, ih _ (by omega) h.2 rfl]
      rfl

/-- Putting blanks makes no flaws and mends the numbers. -/
theorem Flaw.of_spaced {l : Lexeme × List Char} {more : List Char} {e : Error}
    (h : Flaw (l.1, l.1.spacing ++ more) e) : Flaw l e ∧ ∀ digits, l.1 ≠ .number digits := by
  obtain ⟨lexeme, rest⟩ := l
  cases h with
  | number hloose place => exact absurd (Loose.cons (by decide) more) hloose
  | escape hdecode _ place => exact ⟨.escape hdecode rest place, by simp⟩
  | opened raw _ place => exact ⟨.opened raw rest place, by simp⟩
  | stray c _ place => exact ⟨.stray c rest place, by simp⟩

theorem fits_of_flaws {ls : List (Lexeme × List Char)}
    (h : ∀ l ∈ ls, ∀ e, Flaw l e → RunsIntoEnd l) : ∀ l ∈ ls, Grammar.Fits l := by
  rintro ⟨lexeme, rest⟩ hl
  cases lexeme with
  | opened raw =>
    obtain ⟨⟨_, hnumber⟩, _⟩ := h _ hl _ (.opened raw rest ⟨1, 1⟩)
    cases hnumber
  | stray c =>
    obtain ⟨⟨_, hnumber⟩, _⟩ := h _ hl _ (.stray c rest ⟨1, 1⟩)
    cases hnumber
  | _ => exact ⟨_, rfl⟩

end Lexeme

/-- The source with a blank after each number. -/
def spacedSource (source : String) : String := String.ofList (Lexeme.spaced source.toList)

section Spaced

variable {source : String}

theorem row_spacedSource
    (h : ∀ l ∈ Lexeme.row source.toList, ∀ e, Lexeme.Flaw l e → Lexeme.RunsIntoEnd l) :
    Lexeme.row (spacedSource source).toList =
      (Lexeme.row source.toList).map fun l => (l.1, l.1.spacing ++ Lexeme.spaced l.2) := by
  rw [spacedSource, String.toList_ofList, Lexeme.row_spaced (Lexeme.fits_of_flaws h)]

theorem spacedSource_no_fault
    (h : ∀ l ∈ Lexeme.row source.toList, ∀ e, Lexeme.Flaw l e → Lexeme.RunsIntoEnd l) :
    (Lexer.ofSource (spacedSource source) false).tokens.2.1 = none := by
  cases hfault : (Lexer.ofSource (spacedSource source) false).tokens.2.1 with
  | none => rfl
  | some e =>
    obtain ⟨l, hl, hflaw⟩ := (Lexer.course rfl).flaw hfault
    have hrow : l ∈ Lexeme.row (spacedSource source).toList := hl
    rw [row_spacedSource h] at hrow
    obtain ⟨m, hm, rfl⟩ := List.mem_map.mp hrow
    obtain ⟨hflaw, hnot⟩ := hflaw.of_spaced
    obtain ⟨⟨digits, hdigits⟩, _⟩ := h m hm e hflaw
    exact absurd hdigits (hnot digits)

open Grammar (Feed Piece)

/-- The blanks are no pieces. -/
theorem pieces_spacedSource
    (h : ∀ l ∈ Lexeme.row source.toList, ∀ e, Lexeme.Flaw l e → Lexeme.RunsIntoEnd l) :
    (Feed.ofSource source).fault = none ∧ (Feed.ofSource (spacedSource source)).fault = none ∧
      (Feed.ofSource (spacedSource source)).pieces.map Piece.unplaced =
        (Feed.ofSource source).pieces.map Piece.unplaced := by
  have hfits := Lexeme.fits_of_flaws h
  obtain ⟨hfault, hpieces⟩ := Feed.ofSource_row source
  obtain ⟨hfault', hpieces'⟩ := Feed.ofSource_row (spacedSource source)
  rw [row_spacedSource h] at hfault' hpieces'
  have hnone : (Feed.ofSource (spacedSource source)).fault = none := by
    rw [hfault']
    intro l hl
    obtain ⟨m, hm, rfl⟩ := List.mem_map.mp hl
    exact hfits m hm
  refine ⟨hfault.mpr hfits, hnone, ?_⟩
  rw [hpieces' hnone, hpieces (hfault.mpr hfits), List.filterMap_map]
  rfl

/-- Of two sources with the same pieces at other places the grammar accepts both or none. -/
theorem parseByGrammar_ok_of_pieces {other : String} {registry after : Registry}
    {body : List Statement} (h : parseByGrammar source registry = (.ok body, after))
    (hfault : (Feed.ofSource other).fault = none)
    (hpieces : (Feed.ofSource other).pieces.map Piece.unplaced =
      (Feed.ofSource source).pieces.map Piece.unplaced) :
    ∃ found last, parseByGrammar other registry = (.ok found, last) := by
  have ht : (⟨.eof, .absent, ⟨1, 1⟩, false⟩ : Token).kind = .eof := rfl
  obtain ⟨_, hsound, ⟨inner, hsentences⟩, henroll⟩ := (Grammar.parseByGrammar_iff_sentences ht).mp h
  obtain ⟨found, last, hfound, _⟩ := parseByGrammar_of_elsewhere ht hsentences hsound
    (ParsedAfter.regular ⟨source, .inr h⟩) henroll hfault hpieces
  exact ⟨found, last, hfound⟩

end Spaced

/-- On a source with a lexical error descent fails. The grammar fails as well if the source has any
flaw but numbers that `END` runs into. Otherwise it accepts the source exactly if it accepts the one
with a blank after each number, which has no lexical error. -/
theorem lexical_fault_verdict {source : String} {e : Error}
    (hfault : (Lexer.ofSource source false).tokens.2.1 = some e) (registry : Registry) :
    (∃ l ∈ Lexeme.row source.toList, Lexeme.Flaw l e) ∧
    (∃ e' after, parseByDescent source registry = (.error e', after)) ∧
    ((∃ body after, parseByGrammar source registry = (.ok body, after)) ↔
      (∀ l ∈ Lexeme.row source.toList, ∀ e, Lexeme.Flaw l e → Lexeme.RunsIntoEnd l) ∧
      (Lexer.ofSource (spacedSource source) false).tokens.2.1 = none ∧
      ∃ body after, parseByGrammar (spacedSource source) registry = (.ok body, after)) := by
  refine ⟨(Lexer.course rfl).flaw hfault, ?_, ?_, ?_⟩
  · cases hrun : parseByDescent source registry with
    | mk result after =>
      cases result with
      | error e' => exact ⟨e', after, rfl⟩
      | ok body =>
        have hnone := (parseByDescent_eq_ok.mp hrun).1
        rw [hfault] at hnone
        cases hnone
  · rintro ⟨body, after, hok⟩
    have hflaws := Grammar.flaws_of_ok hok
    obtain ⟨_, hnone, hpieces⟩ := pieces_spacedSource hflaws
    exact ⟨hflaws, spacedSource_no_fault hflaws, parseByGrammar_ok_of_pieces hok hnone hpieces⟩
  · rintro ⟨hflaws, _, body, after, hok⟩
    obtain ⟨hnone, _, hpieces⟩ := pieces_spacedSource hflaws
    exact parseByGrammar_ok_of_pieces hok hnone hpieces.symm

theorem lexical_fault_verdict_end :
    (Lexer.ofSource "LOOP x DO OUTPUT 5END # all" false).tokens.2.1 =
        some (.malformedNumber "5END" ⟨1, 18⟩) ∧
      (∀ l ∈ Lexeme.row "LOOP x DO OUTPUT 5END # all".toList, ∀ e, Lexeme.Flaw l e →
        Lexeme.RunsIntoEnd l) ∧
      ∃ body after, parseByGrammar (spacedSource "LOOP x DO OUTPUT 5END # all") [] =
        (.ok body, after) := by
  have hfault : (Lexer.ofSource "LOOP x DO OUTPUT 5END # all" false).tokens.2.1 =
      some (.malformedNumber "5END" ⟨1, 18⟩) := by cbv
  have hok : parseByGrammar "LOOP x DO OUTPUT 5END # all" [] =
      (.ok [.loop (.text "x") [.output [⟨.number, .text "5", ⟨1, 18⟩, false⟩]]], []) := by cbv
  obtain ⟨hflaws, _, haccepted⟩ := (lexical_fault_verdict hfault []).2.2.mp ⟨_, _, hok⟩
  exact ⟨hfault, hflaws, haccepted⟩

/-- A lexical error in a source that the grammar accepts. -/
theorem malformed_number_accepted :
    (Lexer.ofSource "LOOP x DO\ny := 5END" false).tokens.2.1 =
        some (.malformedNumber "5END" ⟨2, 6⟩) ∧
      parseByGrammar "LOOP x DO\ny := 5END" [] =
        (.ok [.loop (.text "x") [.assign (.text "y") 5]], []) :=
  ⟨by cbv, by cbv⟩

end LoopLanguage
