import Mathlib
import LoopLanguage.Proofs.Lexemes

/-!
Where tokens stand. The lexer counts lines and columns while it goes along; here they are read off
the source: a place is known from the text before it. `Lexer.Located` says that a lexer is where its
offset says, and every step keeps it, whether it gives a token or fails. With newlines and comments
kept nothing of a source is lost: its tokens, with the blanks between them, are the source. A text
that is quoted is one token wherever it stands, and the lexer stops right behind it.
-/

namespace LoopLanguage

namespace Text

/-- How many characters a text has after its last line break. -/
def sinceBreak (cs : List Char) : Nat := (cs.reverse.takeWhile (· ≠ '\n')).length

theorem sinceBreak_newline (cs : List Char) : sinceBreak (cs ++ ['\n']) = 0 := by
  simp [sinceBreak]

theorem sinceBreak_append {cs more : List Char} (h : '\n' ∉ more) :
    sinceBreak (cs ++ more) = sinceBreak cs + more.length := by
  have hall : ∀ c ∈ more.reverse, decide (c ≠ '\n') = true := by
    intro c hc
    have hmem : c ∈ more := List.mem_reverse.mp hc
    exact decide_eq_true fun heq => h (heq ▸ hmem)
  rw [sinceBreak, List.reverse_append, List.takeWhile_append_of_pos hall, List.length_append,
    List.length_reverse, sinceBreak]
  omega

end Text

namespace Place

/-- The place right after a text that opens a source. -/
def afterText (cs : List Char) : Place := ⟨1 + cs.count '\n', 1 + Text.sinceBreak cs⟩

/-- The place of the character at that offset of a source. -/
def ofOffset (source : List Char) (offset : Nat) : Place := afterText (source.take offset)

theorem after_afterText (cs : List Char) (c : Char) :
    (afterText cs).after c = afterText (cs ++ [c]) := by
  by_cases hc : c = '\n'
  · subst hc
    simp [after, afterText, Text.sinceBreak_newline]
    omega
  · have hbreak : '\n' ∉ [c] := by simpa [eq_comm] using hc
    simp [after, afterText, hc, Text.sinceBreak_append hbreak, List.count_append]
    omega

theorem foldl_after (cs more : List Char) :
    more.foldl after (afterText cs) = afterText (cs ++ more) := by
  induction more generalizing cs with
  | nil => simp
  | cons c more ih => rw [List.foldl_cons, after_afterText, ih, List.append_assoc]; rfl

end Place

/-- The offset at which the line of that offset begins. -/
def lineOffset (source : List Char) (offset : Nat) : Nat :=
  offset - Text.sinceBreak (source.take offset)

section Offsets

variable {source cs rest : List Char} {offset : Nat}

theorem take_of_drop_eq (h : source.drop offset = cs ++ rest) :
    source.take (offset + cs.length) = source.take offset ++ cs := by
  rw [List.take_add, h, List.take_left]

theorem lineOffset_newline (h : source.drop offset = '\n' :: rest) :
    lineOffset source (offset + 1) = offset + 1 := by
  have htake : source.take (offset + 1) = source.take offset ++ ['\n'] :=
    @take_of_drop_eq source ['\n'] rest offset h
  rw [lineOffset, htake, Text.sinceBreak_newline]
  rfl

/-- Within a line the line begins where it began. -/
theorem lineOffset_of_no_break (h : source.drop offset = cs ++ rest) (hcs : '\n' ∉ cs) :
    lineOffset source (offset + cs.length) = lineOffset source offset := by
  rw [lineOffset, lineOffset, take_of_drop_eq h, Text.sinceBreak_append hcs]
  omega

theorem lineOffset_le (source : List Char) (offset : Nat) : lineOffset source offset ≤ offset :=
  Nat.sub_le _ _

end Offsets

/-! ### Where the lexer is -/

namespace Literal

/-- The body of a literal stays on its line. -/
theorem body_no_break (cs : List Char) : '\n' ∉ (body cs).1 := by
  fun_induction body cs with
  | case1 => simp
  | case2 cs => simp
  | case3 cs => simp
  | case4 c cs hc inner rest hinner ih =>
    rw [hinner] at ih
    simpa [ih, eq_comm] using hc
  | case5 cs => simp
  | case6 c cs hquote hslash hc inner rest hinner ih =>
    rw [hinner] at ih
    simpa [ih, eq_comm] using hc

end Literal

namespace Lexeme

theorem takeWhile_no_break {p : Char → Bool} (hp : p '\n' = false) (cs : List Char) :
    '\n' ∉ cs.takeWhile p := by
  intro hmem
  have hbreak := List.mem_takeWhile_imp hmem
  rw [hp] at hbreak
  cases hbreak

/-- A lexeme is a line break or has none. -/
theorem no_break_of_read? {cs : List Char} {lexeme : Lexeme} (h : read? cs = some lexeme)
    (hne : lexeme ≠ .newline) : '\n' ∉ lexeme.chars := by
  cases cs with
  | nil => cases h
  | cons c cs =>
    rw [read?] at h
    split at h
    · cases h
      exact absurd rfl hne
    next hc =>
    split at h
    · cases h
      exact takeWhile_no_break (by simp) _
    split at h
    · cases h
      exact takeWhile_no_break (by decide) _
    split at h
    · cases h
      exact takeWhile_no_break (by decide) _
    split at h
    · have hbody := Literal.body_no_break cs
      split at h
      · next hraw =>
        cases h
        rw [hraw] at hbody
        simpa [chars] using hbody
      · next hraw =>
        cases h
        rw [hraw] at hbody
        simpa [chars] using hbody
    split at h
    · cases h
      simp [chars]
    split at h
    · cases h
      simpa [chars, eq_comm] using hc
    · cases h
      simpa [chars, eq_comm] using hc

end Lexeme

namespace Lexer

/-- The lexer is in the source where its offset says, and its place is the place of that offset. -/
structure Located (source : List Char) (lexer : Lexer) : Prop where
  offset_le : lexer.offset ≤ source.length
  rest_eq : lexer.rest = source.drop lexer.offset
  place_eq : lexer.place = Place.ofOffset source lexer.offset

variable {source : List Char} {lexer : Lexer}

theorem located_ofSource (source : String) (keepTrivia : Bool) :
    (ofSource source keepTrivia).Located source.toList :=
  ⟨Nat.zero_le _, rfl, rfl⟩

/-- Moving on past what stands there. -/
theorem Located.skip (h : lexer.Located source) {cs : List Char} (hcs : cs <+: lexer.rest) :
    (lexer.skip cs).Located source := by
  obtain ⟨hle, hrest, hplace⟩ := h
  obtain ⟨more, hmore⟩ := hcs
  have hdrop : source.drop lexer.offset = cs ++ more := by rw [← hrest, hmore]
  have hlength : source.length - lexer.offset = cs.length + more.length := by
    rw [← List.length_drop, hdrop, List.length_append]
  constructor
  · show lexer.offset + cs.length ≤ source.length
    omega
  · show lexer.rest.drop cs.length = source.drop (lexer.offset + cs.length)
    rw [hrest, List.drop_drop]
  · show cs.foldl Place.after lexer.place = Place.ofOffset source (lexer.offset + cs.length)
    rw [hplace, Place.ofOffset, Place.foldl_after, Place.ofOffset, take_of_drop_eq hdrop]

theorem Located.skipWhile (h : lexer.Located source) (p : Char → Bool) :
    (lexer.skip (lexer.rest.takeWhile p)).Located source :=
  h.skip ⟨_, List.takeWhile_append_dropWhile⟩

theorem Located.skipGaps (h : lexer.Located source) : lexer.skipGaps.Located source :=
  h.skipWhile Lexeme.isGap

theorem Located.skipLexeme (h : lexer.Located source) {lexeme : Lexeme}
    (hread : Lexeme.read? lexer.rest = some lexeme) :
    (lexer.skip lexeme.chars).Located source := by
  obtain ⟨more, hmore⟩ := Lexeme.read?_front hread
  exact h.skip ⟨more, hmore.symm⟩

/-- Where the lexer is when a scan fails, and why it fails. -/
inductive Faulted (lexer : Lexer) : Error → Lexer → Prop
  | number {digits tail : List Char}
      (hread : Lexeme.read? lexer.skipGaps.rest = some (.number digits))
      (hstart : ∃ c cs, (lexer.skipGaps.skip digits).rest = c :: cs ∧ Lexeme.isNameStart c = true)
      (htail : tail = (lexer.skipGaps.skip digits).rest.takeWhile Lexeme.isNameChar) :
      Faulted lexer (.malformedNumber (String.ofList (digits ++ tail)) lexer.skipGaps.place)
        ((lexer.skipGaps.skip digits).skip tail)
  | escape {raw : List Char} (hread : Lexeme.read? lexer.skipGaps.rest = some (.string raw))
      (hdecode : Literal.decode raw = none) :
      Faulted lexer (.invalidEscape lexer.skipGaps.place.text)
        (lexer.skipGaps.skip (Lexeme.string raw).chars)
  | opened {raw : List Char} (hread : Lexeme.read? lexer.skipGaps.rest = some (.opened raw)) :
      Faulted lexer (.unterminatedString lexer.skipGaps.place)
        (lexer.skipGaps.skip (Lexeme.opened raw).chars)
  | stray {c : Char} (hread : Lexeme.read? lexer.skipGaps.rest = some (.stray c)) :
      Faulted lexer (.unexpectedCharacter c lexer.skipGaps.place) lexer.skipGaps

theorem scan_eq_error {after : Lexer} {e : Error} (h : scan lexer = (.error e, after)) :
    Faulted lexer e after := by
  unfold scan at h
  simp only at h
  split at h
  · cases h
  · cases h
  · cases h
  · cases h
  · next digits hread =>
    split at h
    · next c cs hcs =>
      split at h
      · next hstart =>
        cases h
        exact .number hread ⟨c, cs, hcs, hstart⟩ rfl
      · cases h
    · cases h
  · next raw hread =>
    split at h
    · cases h
    · next hdecode =>
      cases h
      exact .escape hread hdecode
  · next hread =>
    cases h
    exact .opened hread
  · cases h
  · cases h
  · next hread =>
    cases h
    exact .stray hread

/-- A scan leaves the lexer where its offset says, also if it fails. -/
theorem Located.scan (h : lexer.Located source) : (scan lexer).2.Located source := by
  have hgaps := h.skipGaps
  cases hscan : Lexer.scan lexer with
  | mk r after =>
    cases r with
    | ok t =>
      cases scan_eq_ok hscan with
      | finish => exact hgaps
      | lexeme hread => exact hgaps.skipLexeme hread
    | error e =>
      cases scan_eq_error hscan with
      | number hread _ htail =>
        subst htail
        exact (hgaps.skipLexeme hread).skipWhile Lexeme.isNameChar
      | escape hread => exact hgaps.skipLexeme hread
      | opened hread => exact hgaps.skipLexeme hread
      | stray => exact hgaps

theorem Located.noted (h : lexer.Located source) (t : Token) : (lexer.noted t).Located source :=
  ⟨h.offset_le, h.rest_eq, h.place_eq⟩

section Kept

variable {P : Lexer → Prop} (hscan : ∀ l, P l → P (Lexer.scan l).2)
  (hnoted : ∀ l t, P l → P (l.noted t))
include hscan hnoted

theorem scanOn_keeps (h : P lexer) : P (scanOn lexer).2 := by
  have hkept := hscan lexer h
  cases hrun : scan lexer with
  | mk r after =>
    rw [hrun] at hkept
    cases r with
    | ok t =>
      rw [scanOn_of_scan_ok hrun]
      exact hnoted after t hkept
    | error e =>
      rw [scanOn_of_scan_error hrun]
      exact hkept

/-- What every scan keeps is kept while tokens are passed over, also if one of the scans fails. -/
theorem scanWanted_keeps (h : P lexer) (count : Nat) : P (scanWanted count lexer).2 := by
  induction count generalizing lexer with
  | zero => exact scanOn_keeps hscan hnoted h
  | succ count ih =>
    have hkept := scanOn_keeps hscan hnoted h
    unfold scanWanted
    split
    · next hrun =>
      rw [hrun] at hkept
      split
      · exact ih hkept
      · exact hkept
    · next hrun =>
      rw [hrun] at hkept
      exact hkept

end Kept

theorem Located.next (h : lexer.Located source) : (next lexer).2.Located source := by
  unfold Lexer.next
  split
  · exact ⟨h.offset_le, h.rest_eq, h.place_eq⟩
  · exact scanWanted_keeps (fun _ => Located.scan) (fun _ t h => h.noted t) h _

theorem Located.pushBack (h : lexer.Located source) (t : Token) :
    (pushBack t lexer).2.Located source := by
  unfold Lexer.pushBack
  split
  · exact h
  · exact ⟨h.offset_le, h.rest_eq, h.place_eq⟩

/-- The states that a lexer can get into by reading tokens and pushing tokens back, in any order and
whether these steps fail or not. -/
inductive Reachable (source : String) (keepTrivia : Bool) : Lexer → Prop
  | start : Reachable source keepTrivia (ofSource source keepTrivia)
  | next {lexer : Lexer} (before : Reachable source keepTrivia lexer) :
      Reachable source keepTrivia (next lexer).2
  | pushBack {lexer : Lexer} (before : Reachable source keepTrivia lexer) (t : Token) :
      Reachable source keepTrivia (pushBack t lexer).2

theorem Reachable.located {source : String} {keepTrivia : Bool}
    (h : Reachable source keepTrivia lexer) : lexer.Located source.toList := by
  induction h with
  | start => exact located_ofSource source keepTrivia
  | next _ ih => exact ih.next
  | pushBack _ t ih => exact ih.pushBack t

end Lexer

/-! ### Tokens in their source -/

/-- The text of the token is what the characters say: a string is what its literal spells, the end
has no characters and no text, and every other token is its characters. -/
inductive Token.ReadFrom (t : Token) : List Char → Prop
  | finish (hkind : t.kind = .eof) (htext : t.text = .absent) : ReadFrom t []
  | string {raw text : List Char} (hkind : t.kind = .string)
      (hdecode : Literal.decode raw = some text) (htext : t.text = .text (String.ofList text)) :
      ReadFrom t ('"' :: raw ++ ['"'])
  | plain {cs : List Char} (hfinish : t.kind ≠ .eof) (hstring : t.kind ≠ .string) (hcs : cs ≠ [])
      (htext : t.text = .text (String.ofList cs)) : ReadFrom t cs

theorem Lexeme.Denotes.readFrom {lexeme : Lexeme} {kind : Kind} {text : String} {cs : List Char}
    (h : lexeme.Denotes kind text) (hread : Lexeme.read? cs = some lexeme) (place : Place)
    (lineStart : Bool) : (Token.mk kind (.text text) place lineStart).ReadFrom lexeme.chars := by
  have hne := Lexeme.chars_ne_nil hread
  have hfinish := h.kind_ne_eof
  cases h with
  | string hdecode => exact .string rfl hdecode rfl
  | word cs => exact .plain hfinish (Lexeme.wordKind_not_literal _).2 hne rfl
  | mark c =>
    refine .plain hfinish ?_ hne rfl
    intro hstring
    have hkind := Lexeme.markKind_cases c
    rw [show Lexer.markKind c = .string from hstring] at hkind
    simp at hkind
  | newline => exact .plain hfinish (by simp) hne rfl
  | comment cs => exact .plain hfinish (by simp) hne rfl
  | number cs => exact .plain hfinish (by simp) hne rfl
  | assign => exact .plain hfinish (by simp) hne rfl

/-- A token, the characters that it was read from and the offset at which they stand. -/
structure Occurrence where
  offset : Nat
  lexeme : List Char
  token : Token

/-- `Laid offset cs found`: the text `cs`, which starts at that offset, is made of the lexemes that
were found, in their order and at their offsets, with nothing but blanks between them. -/
inductive Laid : Nat → List Char → List Occurrence → Prop
  | nil {offset : Nat} : Laid offset [] []
  | cons {offset : Nat} {gap cs : List Char} {o : Occurrence} {found : List Occurrence}
      (hgap : ∀ c ∈ gap, c ∈ [' ', '\t', '\r', '\x0c']) (hoffset : o.offset = offset + gap.length)
      (rest : Laid (o.offset + o.lexeme.length) cs found) :
      Laid offset (gap ++ (o.lexeme ++ cs)) (o :: found)

theorem Laid.offset_le {offset : Nat} {cs : List Char} {found : List Occurrence}
    (h : Laid offset cs found) : ∀ o ∈ found, offset ≤ o.offset := by
  induction h with
  | nil => simp
  | cons hgap hoffset _ ih =>
    intro q hq
    rcases List.mem_cons.mp hq with rfl | hq
    · omega
    · have hle := ih q hq
      omega

/-- No significant token stands between the beginning of the line and the offset. -/
def OpensLine (source : List Char) (found : List Occurrence) (offset : Nat) : Prop :=
  ∀ q ∈ found, q.token.kind.isTrivia = false → q.offset < offset →
    q.offset < lineOffset source offset

/-- The token says what stands in the source, where it stands, and whether it opens its line. -/
structure Occurrence.Exact (source : List Char) (found : List Occurrence) (o : Occurrence) :
    Prop where
  text : o.token.ReadFrom o.lexeme
  place : o.token.place = Place.ofOffset source o.offset
  lineStart : o.token.lineStart = true ↔ OpensLine source found o.offset

namespace OpensLine

variable {source : List Char} {before : List Occurrence} {offset : Nat}

/-- Tokens from the offset on do not count. -/
theorem append {more : List Occurrence} (hmore : ∀ q ∈ more, offset ≤ q.offset) :
    OpensLine source (before ++ more) offset ↔ OpensLine source before offset := by
  constructor
  · intro h q hq
    exact h q (List.mem_append_left more hq)
  · intro h q hq htrivia hlt
    rcases List.mem_append.mp hq with hq | hq
    · exact h q hq htrivia hlt
    · have hle := hmore q hq
      omega

/-- Moving on within a line, past nothing significant. -/
theorem move {cs rest : List Char} (hbefore : ∀ q ∈ before, q.offset < offset)
    (h : source.drop offset = cs ++ rest) (hcs : '\n' ∉ cs) :
    OpensLine source before (offset + cs.length) ↔ OpensLine source before offset := by
  unfold OpensLine
  rw [lineOffset_of_no_break h hcs]
  constructor
  · intro hopens q hq htrivia hlt
    exact hopens q hq htrivia (by omega)
  · intro hopens q hq htrivia _
    exact hopens q hq htrivia (hbefore q hq)

/-- What a token does to the line it stands on. -/
theorem after_token {cs : List Char} {lexeme : Lexeme} {kind : Kind} {text : String}
    (hdrop : source.drop offset = cs) (hread : Lexeme.read? cs = some lexeme)
    (hdenotes : lexeme.Denotes kind text) (hbefore : ∀ q ∈ before, q.offset < offset)
    {start : Bool} (hstart : start = true ↔ OpensLine source before offset) {o : Occurrence}
    (hoffset : o.offset = offset) (hkind : o.token.kind = kind) :
    Lexer.startsLine kind start = true ↔
      OpensLine source (before ++ [o]) (offset + lexeme.chars.length) := by
  obtain ⟨rest, hrest⟩ := Lexeme.read?_front hread
  have hchars : source.drop offset = lexeme.chars ++ rest := hdrop.trans hrest
  have hlength := List.length_pos_iff.mpr (Lexeme.chars_ne_nil hread)
  by_cases hnewline : lexeme = .newline
  · subst hnewline
    cases hdenotes
    have hline : lineOffset source (offset + 1) = offset + 1 := lineOffset_newline hchars
    refine iff_of_true rfl ?_
    intro q hq _ _
    show q.offset < lineOffset source (offset + 1)
    rw [hline]
    rcases List.mem_append.mp hq with hq | hq
    · have hlt := hbefore q hq
      omega
    · rw [List.mem_singleton.mp hq]
      omega
  · have hbreak := Lexeme.no_break_of_read? hread hnewline
    cases htrivia : kind.isTrivia with
    | true =>
      have hcomment : kind = .comment := by
        cases hdenotes with
        | newline => exact absurd rfl hnewline
        | comment => rfl
        | word cs =>
          rw [Lexeme.wordKind_not_trivia] at htrivia
          cases htrivia
        | mark c =>
          rw [Lexer.markKind_not_trivia] at htrivia
          cases htrivia
        | _ => cases htrivia
      subst hcomment
      rw [Lexer.startsLine, hstart, ← move hbefore hchars hbreak]
      constructor
      · intro h q hq hq' hlt
        rcases List.mem_append.mp hq with hq | hq
        · exact h q hq hq' hlt
        · rw [List.mem_singleton.mp hq, hkind] at hq'
          cases hq'
      · intro h q hq
        exact h q (List.mem_append_left _ hq)
    | false =>
      rw [Lexer.startsLine_of_not_trivia htrivia]
      refine iff_of_false (by simp) ?_
      intro h
      have hlt := h o (by simp) (hkind ▸ htrivia) (by omega)
      rw [lineOffset_of_no_break hchars hbreak, hoffset] at hlt
      have hle := lineOffset_le source offset
      omega

end OpensLine

namespace Lexer

variable {source : List Char} {lexer : Lexer} {before : List Occurrence}

theorem gap_mem {c : Char} (h : c ∈ lexer.rest.takeWhile Lexeme.isGap) :
    c ∈ [' ', '\t', '\r', '\x0c'] := by
  have hgap := List.mem_takeWhile_imp h
  simpa [Lexeme.isGap, or_assoc] using hgap

/-- The blanks before a token do not change the line. -/
theorem Located.opensLine_skipGaps (h : lexer.Located source)
    (hbefore : ∀ q ∈ before, q.offset < lexer.offset) :
    OpensLine source before lexer.skipGaps.offset ↔ OpensLine source before lexer.offset := by
  have hdrop : source.drop lexer.offset =
      lexer.rest.takeWhile Lexeme.isGap ++ lexer.rest.dropWhile Lexeme.isGap := by
    rw [← h.rest_eq, List.takeWhile_append_dropWhile]
  exact OpensLine.move hbefore hdrop (Lexeme.takeWhile_no_break (by decide) _)

/-- What stands after the blanks, and what comes after that. -/
theorem laid_cons {o : Occurrence} {cs : List Char} {found : List Occurrence}
    (hoffset : o.offset = lexer.skipGaps.offset) (hrest : lexer.skipGaps.rest = o.lexeme ++ cs)
    (h : Laid (o.offset + o.lexeme.length) cs found) :
    Laid lexer.offset lexer.rest (o :: found) := by
  have hsplit : lexer.rest = lexer.rest.takeWhile Lexeme.isGap ++ (o.lexeme ++ cs) := by
    rw [← hrest, skipGaps, skip_rest, Lexeme.drop_takeWhile, List.takeWhile_append_dropWhile]
  rw [hsplit]
  exact .cons (fun c hc => gap_mem hc) hoffset h

/-- The tokens of a source that has no fault are laid out in it one after the other. What was found
before only tells whether the first of them opens its line. -/
theorem Course.occurrences (h : Course lexer) (hkeep : lexer.keepTrivia = true)
    (hfault : lexer.tokens.2.1 = none) (hlocated : lexer.Located source)
    (hbefore : ∀ q ∈ before, q.offset < lexer.offset)
    (hline : lexer.lineStart = true ↔ OpensLine source before lexer.offset) :
    ∃ found : List Occurrence, found.map Occurrence.token = lexer.tokens.1 ∧
      Laid lexer.offset lexer.rest found ∧
      found.Pairwise (fun o q => o.offset < q.offset) ∧
      (∃ front last, found = front ++ [last] ∧ last.token.kind = .eof) ∧
      ∀ o ∈ found, o.Exact source (before ++ found) := by
  induction h generalizing before with
  | fault hp hscan =>
    rw [tokens_of_error (next_of_error hp hscan)] at hfault
    cases hfault
  | @finish lexer hp hread hscan =>
    let t : Token := ⟨.eof, .absent, lexer.skipGaps.place, lexer.lineStart⟩
    let o : Occurrence := ⟨lexer.skipGaps.offset, [], t⟩
    have htokens := tokens_of_eof (next_of_wanted hp hscan (by simp [Kind.isTrivia])) rfl
    have hlaid : Laid lexer.offset lexer.rest [o] :=
      laid_cons rfl (Lexeme.eq_nil_of_read? hread) .nil
    refine ⟨[o], by rw [htokens]; rfl, hlaid, by simp, ⟨[], o, rfl, rfl⟩, ?_⟩
    intro q hq
    rw [List.mem_singleton.mp hq]
    refine ⟨.finish rfl rfl, hlocated.skipGaps.place_eq, ?_⟩
    rw [OpensLine.append (by simp), hlocated.opensLine_skipGaps hbefore]
    exact hline
  | @lexeme lexer lexeme kind text hp hread hdenotes hscan _ ih =>
    let t : Token := ⟨kind, .text text, lexer.skipGaps.place, lexer.lineStart⟩
    let o : Occurrence := ⟨lexer.skipGaps.offset, lexeme.chars, t⟩
    have hgaps := hlocated.skipGaps
    have hlength := List.length_pos_iff.mpr (Lexeme.chars_ne_nil hread)
    have hoffset : lexer.offset ≤ lexer.skipGaps.offset := Nat.le_add_right _ _
    have hbefore' : ∀ q ∈ before, q.offset < lexer.skipGaps.offset := by
      intro q hq
      have hlt := hbefore q hq
      omega
    have hline' : lexer.lineStart = true ↔ OpensLine source before lexer.skipGaps.offset :=
      hline.trans (hlocated.opensLine_skipGaps hbefore).symm
    have hnext := next_of_wanted hp hscan (by simp [hkeep])
    have htokens := tokens_of_ok hnext hdenotes.kind_ne_eof
    rw [htokens] at hfault ⊢
    have hmore : ∀ q ∈ before ++ [o], q.offset < lexer.skipGaps.offset + lexeme.chars.length := by
      intro q hq
      rcases List.mem_append.mp hq with hq | hq
      · have hlt := hbefore' q hq
        omega
      · rw [List.mem_singleton.mp hq]
        show lexer.skipGaps.offset < lexer.skipGaps.offset + lexeme.chars.length
        omega
    obtain ⟨found, hmap, hlaid, hpairwise, ⟨front, last, hfront, hlast⟩, hexact⟩ :=
      @ih (before ++ [o]) hkeep hfault ((hgaps.skipLexeme hread).noted t) hmore
        (OpensLine.after_token hgaps.rest_eq.symm hread hdenotes hbefore' hline' rfl rfl)
    have hlater : ∀ q ∈ found, lexer.skipGaps.offset + lexeme.chars.length ≤ q.offset :=
      hlaid.offset_le
    refine ⟨o :: found, by rw [List.map_cons, hmap], ?_, ?_, ?_, ?_⟩
    · obtain ⟨rest, hrest⟩ := Lexeme.read?_front hread
      have hafter : (lexer.skipGaps.skip lexeme.chars).rest = rest := by
        rw [skip_rest, hrest, List.drop_left]
      have hlaid : Laid (lexer.skipGaps.offset + lexeme.chars.length)
          (lexer.skipGaps.skip lexeme.chars).rest found := hlaid
      rw [hafter] at hlaid
      exact laid_cons rfl hrest hlaid
    · refine List.pairwise_cons.mpr ⟨?_, hpairwise⟩
      intro q hq
      have hle := hlater q hq
      show lexer.skipGaps.offset < q.offset
      omega
    · exact ⟨o :: front, last, by rw [hfront]; rfl, hlast⟩
    · intro q hq
      rcases List.mem_cons.mp hq with rfl | hq
      · refine ⟨hdenotes.readFrom hread _ _, hgaps.place_eq, ?_⟩
        rw [OpensLine.append]
        · exact hline'
        · intro q hq
          rcases List.mem_cons.mp hq with rfl | hq
          · exact Nat.le_refl _
          · have hle := hlater q hq
            show lexer.skipGaps.offset ≤ q.offset
            omega
      · have hone := hexact q hq
        rwa [List.append_assoc] at hone

end Lexer

/-- Nothing of a source is lost, and positions are exact. A source that is read to its end without
error is made of its tokens and of blanks between them; the text of each token is what stands there,
its place is that of its offset, and it opens its line exactly if no other token but newlines and
comments stands before it there. Whatever was read and pushed back, the lexer is inside its source
and its place is that of its offset. -/
theorem lexing_exact (source : String) :
    ((Lexer.ofSource source true).tokens.2.1 = none →
      ∃ found : List Occurrence,
        found.map Occurrence.token = (Lexer.ofSource source true).tokens.1 ∧
        Laid 0 source.toList found ∧
        found.Pairwise (fun o q => o.offset < q.offset) ∧
        (∃ front last, found = front ++ [last] ∧ last.token.kind = .eof) ∧
        ∀ o ∈ found, o.Exact source.toList found) ∧
    ∀ keepTrivia lexer, Lexer.Reachable source keepTrivia lexer →
      lexer.offset ≤ source.length ∧
        lexer.place = Place.ofOffset source.toList lexer.offset := by
  constructor
  · intro hfault
    exact @Lexer.Course.occurrences _ _ [] (Lexer.course rfl) rfl hfault
      (Lexer.located_ofSource source true) (by simp) (iff_of_true rfl (by simp [OpensLine]))
  · intro keepTrivia lexer h
    have hlocated := h.located
    refine ⟨?_, hlocated.place_eq⟩
    rw [← String.length_toList]
    exact hlocated.offset_le

/-- The comment ends at the line break, the carriage return belongs to it, and the literal has an
escape. -/
theorem lexing_exact_literal :
    (Lexer.ofSource "x := 1 # one\r\n\tOUTPUT \"\\n\", x " true).tokens.2.1 = none ∧
      ∃ found : List Occurrence,
        found.map Occurrence.token =
          (Lexer.ofSource "x := 1 # one\r\n\tOUTPUT \"\\n\", x " true).tokens.1 ∧
        Laid 0 "x := 1 # one\r\n\tOUTPUT \"\\n\", x ".toList found ∧
        ∀ o ∈ found, o.Exact "x := 1 # one\r\n\tOUTPUT \"\\n\", x ".toList found := by
  have hfault : (Lexer.ofSource "x := 1 # one\r\n\tOUTPUT \"\\n\", x " true).tokens.2.1 = none := by
    cbv
  obtain ⟨found, hmap, hlaid, _, _, hexact⟩ := (lexing_exact _).1 hfault
  exact ⟨hfault, found, hmap, hlaid, hexact⟩

/-! ### Quoted texts -/

namespace Literal

theorem quote_toList (text : String) :
    (quote text).toList = (Lexeme.string (encode text.toList)).chars :=
  String.toList_ofList

theorem encode_no_break (cs : List Char) : '\n' ∉ encode cs := by
  have hbody := body_no_break (encode cs ++ ['"'])
  rwa [body_encode_append] at hbody

theorem quote_no_break (text : String) : '\n' ∉ (quote text).toList := by
  simp [quote_toList, Lexeme.chars, encode_no_break]

/-- Without its quotes a quoted text spells the text. -/
theorem decode_quote (text : String) :
    decode ((quote text).toList.tail.dropLast) = some text.toList := by
  have hraw : (quote text).toList.tail.dropLast = encode text.toList := by
    rw [quote_toList]
    exact List.dropLast_concat
  rw [hraw, decode_encode]

end Literal

theorem Place.afterText_of_no_break {cs : List Char} (h : '\n' ∉ cs) :
    afterText cs = ⟨1, 1 + cs.length⟩ := by
  have hsince : Text.sinceBreak ([] ++ cs) = 0 + cs.length := Text.sinceBreak_append h
  rw [List.nil_append, Nat.zero_add] at hsince
  rw [afterText, hsince, List.count_eq_zero.mpr h, Nat.cast_zero, add_zero]

/-- A quoted text is one token wherever the lexer meets it, whatever comes after it. -/
theorem Lexer.next_quote {lexer : Lexer} {text : String} {rest : List Char}
    (hpushed : lexer.pushed = none) (hrest : lexer.rest = (Literal.quote text).toList ++ rest) :
    next lexer = (.ok ⟨.string, .text text, lexer.place, lexer.lineStart⟩,
      { lexer.skip (Literal.quote text).toList with lineStart := false }) := by
  have hgaps : lexer.skipGaps = lexer := by
    rw [skipGaps, hrest, Literal.quote_toList]
    rfl
  have hread : Lexeme.read? lexer.skipGaps.rest =
      some (.string (Literal.encode text.toList)) := by
    rw [hgaps, hrest, Literal.quote_toList]
    exact Lexeme.string_stands text.toList rest trivial
  have hdenotes := Lexeme.Denotes.string (Literal.decode_encode text.toList)
  rw [String.ofList_toList] at hdenotes
  have hscan := scan_of_denotes hread hdenotes (by rintro digits ⟨⟩)
  rw [hgaps, ← Literal.quote_toList] at hscan
  exact next_of_wanted hpushed hscan rfl

/-- Quoting is undone by reading, whatever the text holds and whatever comes after it: the first
token of a source that begins with a quoted text is the text, and the lexer stops right after the
closing quote, still on the first line. Without its quotes, the literal spells the text. -/
theorem quoting_reads_back (text rest : String) (keepTrivia : Bool) :
    ∃ after, Lexer.next (Lexer.ofSource (Literal.quote text ++ rest) keepTrivia) =
        (.ok ⟨.string, .text text, ⟨1, 1⟩, true⟩, after) ∧
      after.offset = (Literal.quote text).length ∧ after.rest = rest.toList ∧
      after.place = ⟨1, 1 + (Literal.quote text).length⟩ ∧ after.pushed = none ∧
      Literal.decode ((Literal.quote text).toList.tail.dropLast) = some text.toList := by
  have hsource : (Lexer.ofSource (Literal.quote text ++ rest) keepTrivia).rest =
      (Literal.quote text).toList ++ rest.toList := String.toList_append
  have hnext := Lexer.next_quote rfl hsource
  have hlocated := (Lexer.located_ofSource (Literal.quote text ++ rest) keepTrivia).next
  rw [hnext] at hlocated
  have hoffset : 0 + (Literal.quote text).toList.length = (Literal.quote text).length := by
    rw [Nat.zero_add, String.length_toList]
  refine ⟨_, hnext, hoffset, ?_, ?_, rfl, Literal.decode_quote text⟩
  · show List.drop _ _ = _
    rw [hsource, List.drop_left]
  · rw [hlocated.place_eq, Place.ofOffset, String.toList_append]
    show Place.afterText (List.take (0 + (Literal.quote text).toList.length) _) = _
    rw [Nat.zero_add, List.take_left, Place.afterText_of_no_break (Literal.quote_no_break text),
      String.length_toList]

end LoopLanguage
