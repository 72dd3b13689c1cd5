import LoopLanguage.Source.Lexer

/-!
What the lexer does at one place of a source. A lexeme stands at the front of what is left and has
at least one character, so every token but the end token shortens what is left. This makes all the
step counts of the lexer large enough: `Lexer.next` and `Lexer.tokens` satisfy the equations that
one would write without counting.
-/

namespace LoopLanguage

namespace Literal

/-- The body of a closed literal, the quote and what comes after it are the text. -/
theorem body_closed {cs raw rest : List Char} (h : body cs = (raw, some rest)) :
    cs = raw ++ '"' :: rest := by
  fun_induction body cs generalizing raw with
  | case1 => simp at h
  | case2 cs => simp_all
  | case3 cs => simp at h
  | case4 c cs hc inner _ hinner ih =>
    obtain ⟨rfl, rfl⟩ := Prod.mk.inj h
    exact congrArg (fun t => '\\' :: c :: t) (ih hinner)
  | case5 cs => simp at h
  | case6 c cs _ _ hc inner _ hinner ih =>
    obtain ⟨rfl, rfl⟩ := Prod.mk.inj h
    exact congrArg (c :: ·) (ih hinner)

/-- What was read of a literal that is not closed stands at the front of the text. -/
theorem body_open {cs raw : List Char} (h : body cs = (raw, none)) : ∃ rest, cs = raw ++ rest := by
  fun_induction body cs generalizing raw with
  | case1 => exact ⟨[], by simp_all⟩
  | case2 cs => simp at h
  | case3 cs =>
    obtain ⟨rfl, -⟩ := Prod.mk.inj h
    exact ⟨'\n' :: cs, rfl⟩
  | case4 c cs hc inner _ hinner ih =>
    obtain ⟨rfl, rfl⟩ := Prod.mk.inj h
    obtain ⟨rest, hcs⟩ := ih hinner
    exact ⟨rest, congrArg (fun t => '\\' :: c :: t) hcs⟩
  | case5 cs =>
    obtain ⟨rfl, -⟩ := Prod.mk.inj h
    exact ⟨_, rfl⟩
  | case6 c cs _ _ hc inner _ hinner ih =>
    obtain ⟨rfl, rfl⟩ := Prod.mk.inj h
    obtain ⟨rest, hcs⟩ := ih hinner
    exact ⟨rest, congrArg (c :: ·) hcs⟩

end Literal

namespace Lexeme

theorem isNameChar_of_isNameStart {c : Char} (h : isNameStart c = true) : isNameChar c = true := by
  simp only [isNameStart, isNameChar, Char.isAlphanum, Bool.or_eq_true] at h ⊢
  rcases h with h | h
  · exact .inl (.inl h)
  · exact .inr h

/-- A lexeme has a character. -/
theorem chars_ne_nil {cs : List Char} {lexeme : Lexeme} (h : read? cs = some lexeme) :
    lexeme.chars ≠ [] := by
  cases cs with
  | nil => simp [read?] at h
  | cons c cs =>
    rw [read?] at h
    split at h
    · cases h; simp [chars]
    next hnl =>
    split at h
    · cases h; simp [chars, hnl]
    split at h
    · next hc => cases h; simp [chars, isNameChar_of_isNameStart hc]
    split at h
    · next hc => cases h; simp [chars, hc]
    split at h
    · split at h <;> cases h <;> simp [chars]
    split at h
    · cases h; simp [chars]
    split at h <;> cases h <;> simp [chars]

/-- A lexeme stands at the front of the text that it is read from. -/
theorem read?_front {cs : List Char} {lexeme : Lexeme} (h : read? cs = some lexeme) :
    ∃ rest, cs = lexeme.chars ++ rest := by
  cases cs with
  | nil => simp [read?] at h
  | cons c cs =>
    have hwhile : ∀ p : Char → Bool, ∃ rest, c :: cs = (c :: cs).takeWhile p ++ rest :=
      fun p => ⟨(c :: cs).dropWhile p, List.takeWhile_append_dropWhile.symm⟩
    rw [read?] at h
    split at h
    · next hc => cases h; exact ⟨cs, by simp [chars, hc]⟩
    split at h
    · cases h; exact hwhile fun c => decide (c ≠ '\n')
    split at h
    · cases h; exact hwhile isNameChar
    split at h
    · cases h; exact hwhile Char.isDigit
    split at h
    · next hc =>
      split at h
      · next raw rest hbody =>
        cases h
        exact ⟨rest, by simp [chars, hc, Literal.body_closed hbody]⟩
      · next raw hbody =>
        cases h
        obtain ⟨rest, hrest⟩ := Literal.body_open hbody
        exact ⟨rest, by simp [chars, hc, hrest]⟩
    split at h
    · next hc =>
      simp only [Bool.and_eq_true, decide_eq_true_eq] at hc
      obtain ⟨rest, hrest⟩ := List.head?_eq_some_iff.mp hc.2
      cases h
      exact ⟨rest, by simp [chars, hc.1, hrest]⟩
    split at h <;> cases h <;> exact ⟨cs, rfl⟩

theorem length_drop_chars_lt {cs : List Char} {lexeme : Lexeme} (h : read? cs = some lexeme) :
    (cs.drop lexeme.chars.length).length < cs.length := by
  obtain ⟨rest, rfl⟩ := read?_front h
  have hpos := List.length_pos_iff.mpr (chars_ne_nil h)
  simp only [List.length_drop, List.length_append]
  omega

/-- The form of a word. -/
def isName : List Char → Bool
  | [] => false
  | c :: cs => isNameStart c && cs.all isNameChar

/-- The form of a number. -/
def isNumeral (cs : List Char) : Bool := !cs.isEmpty && cs.all Char.isDigit

theorem isName_of_read? {cs word : List Char} (h : read? cs = some (.word word)) :
    isName word = true := by
  cases cs with
  | nil => simp [read?] at h
  | cons c cs =>
    rw [read?] at h
    repeat' split at h
    all_goals cases h
    next hc =>
    rw [List.takeWhile_cons_of_pos (isNameChar_of_isNameStart hc)]
    simp [isName, hc]

theorem isNumeral_of_read? {cs digits : List Char} (h : read? cs = some (.number digits)) :
    isNumeral digits = true := by
  cases cs with
  | nil => simp [read?] at h
  | cons c cs =>
    rw [read?] at h
    repeat' split at h
    all_goals cases h
    next hc =>
    rw [List.takeWhile_cons_of_pos hc]
    simp [isNumeral, hc]

/-- The kind and the text of the token that a lexeme makes. A literal that is not closed or has a
bad escape and a stray character make none. -/
inductive Denotes : Lexeme → Kind → String → Prop
  | newline : Denotes .newline .newline (String.ofList ['\n'])
  | comment (cs : List Char) : Denotes (.comment cs) .comment (String.ofList cs)
  | word (cs : List Char) :
      Denotes (.word cs) (Lexer.wordKind (String.ofList cs)) (String.ofList cs)
  | number (cs : List Char) : Denotes (.number cs) .number (String.ofList cs)
  | string {raw text : List Char} (h : Literal.decode raw = some text) :
      Denotes (.string raw) .string (String.ofList text)
  | assign : Denotes .assign .assign (String.ofList [':', '='])
  | mark (c : Char) : Denotes (.mark c) (Lexer.markKind c) (String.ofList [c])

theorem mem_of_lookup {α : Type} {entries : List (String × α)} {word : String} {a : α}
    (h : entries.lookup word = some a) : (word, a) ∈ entries := by
  obtain ⟨front, back, rfl, _⟩ := List.lookup_eq_some_iff.mp h
  simp

theorem wordKind_mem (word : String) :
    Lexer.wordKind word ∈ Kind.identifier :: Lexer.keywords.map Prod.snd := by
  unfold Lexer.wordKind
  cases hlookup : Lexer.keywords.lookup word with
  | none => exact List.mem_cons_self
  | some kind => exact List.mem_cons_of_mem _ (List.mem_map.mpr ⟨_, mem_of_lookup hlookup, rfl⟩)

theorem wordKind_ne_eof (word : String) : Lexer.wordKind word ≠ .eof := by
  have hkinds : ∀ kind ∈ Kind.identifier :: Lexer.keywords.map Prod.snd, kind ≠ .eof := by decide
  exact hkinds _ (wordKind_mem word)

theorem wordKind_not_trivia (word : String) : (Lexer.wordKind word).isTrivia = false := by
  have hkinds : ∀ kind ∈ Kind.identifier :: Lexer.keywords.map Prod.snd,
      kind.isTrivia = false := by decide
  exact hkinds _ (wordKind_mem word)

theorem markKind_cases (c : Char) :
    Lexer.markKind c ∈ [Kind.plus, .leftParen, .rightParen, .comma, .semicolon] := by
  unfold Lexer.markKind
  split <;> simp

theorem Denotes.kind_ne_eof {lexeme : Lexeme} {kind : Kind} {text : String}
    (h : lexeme.Denotes kind text) : kind ≠ .eof := by
  cases h with
  | word cs => exact wordKind_ne_eof _
  | mark c =>
    intro heof
    have hkind := markKind_cases c
    rw [heof] at hkind
    simp at hkind
  | _ => simp

end Lexeme

/-- A word that is no keyword. -/
def Atom.IsIdentifier : Atom → Prop
  | .text s => Lexeme.isName s.toList = true ∧ Lexer.wordKind s = .identifier
  | _ => False

theorem Atom.IsIdentifier.exists_text {a : Atom} (h : a.IsIdentifier) : ∃ s, a = .text s := by
  cases a with
  | text s => exact ⟨s, rfl⟩
  | absent => exact h.elim
  | other => exact h.elim

def Atom.IsNumeral : Atom → Prop
  | .text s => Lexeme.isNumeral s.toList = true
  | _ => False

def Atom.IsText : Atom → Prop
  | .text _ => True
  | _ => False

/-- The text of the token has the form that its kind promises. -/
def Token.Lexical (t : Token) : Prop :=
  match t.kind with
  | .identifier => t.text.IsIdentifier
  | .number => t.text.IsNumeral
  | .string => t.text.IsText
  | _ => True

theorem Token.Lexical.identifier {t : Token} (h : t.Lexical) (hkind : t.kind = .identifier) :
    t.text.IsIdentifier := by
  simpa [Token.Lexical, hkind] using h

theorem Token.Lexical.isKey {t : Token} (h : t.Lexical) (hkind : t.kind = .identifier) :
    t.text.isKey = true := by
  obtain ⟨s, hs⟩ := (h.identifier hkind).exists_text
  rw [hs]
  rfl

theorem Lexeme.wordKind_not_literal (word : String) :
    Lexer.wordKind word ≠ .number ∧ Lexer.wordKind word ≠ .string := by
  have hkinds : ∀ kind ∈ Kind.identifier :: Lexer.keywords.map Prod.snd,
      kind ≠ .number ∧ kind ≠ .string := by decide
  exact hkinds _ (wordKind_mem word)

namespace Lexer

@[simp] theorem skip_rest (lexer : Lexer) (cs : List Char) :
    (lexer.skip cs).rest = lexer.rest.drop cs.length := rfl

@[simp] theorem skip_place (lexer : Lexer) (cs : List Char) :
    (lexer.skip cs).place = cs.foldl Place.after lexer.place := rfl

@[simp] theorem skip_lineStart (lexer : Lexer) (cs : List Char) :
    (lexer.skip cs).lineStart = lexer.lineStart := rfl

@[simp] theorem skip_pushed (lexer : Lexer) (cs : List Char) :
    (lexer.skip cs).pushed = lexer.pushed := rfl

@[simp] theorem skip_keepTrivia (lexer : Lexer) (cs : List Char) :
    (lexer.skip cs).keepTrivia = lexer.keepTrivia := rfl

/-- A token that the lexer reads: the end, or what the next lexeme denotes. -/
inductive Scanned (lexer : Lexer) : Token → Lexer → Prop
  | finish (h : Lexeme.read? lexer.skipGaps.rest = none) :
      Scanned lexer ⟨.eof, .absent, lexer.skipGaps.place, lexer.lineStart⟩ lexer.skipGaps
  | lexeme {lexeme : Lexeme} {kind : Kind} {text : String}
      (h : Lexeme.read? lexer.skipGaps.rest = some lexeme) (denotes : lexeme.Denotes kind text) :
      Scanned lexer ⟨kind, .text text, lexer.skipGaps.place, lexer.lineStart⟩
        (lexer.skipGaps.skip lexeme.chars)

theorem scan_eq_ok {lexer after : Lexer} {t : Token} (h : scan lexer = (.ok t, after)) :
    Scanned lexer t after := by
  unfold scan at h
  simp only at h
  split at h
  · next hread =>
    cases h
    exact .finish hread
  · next hread =>
    cases h
    exact .lexeme hread .newline
  · next cs hread =>
    cases h
    exact .lexeme hread (.comment cs)
  · next cs hread =>
    cases h
    exact .lexeme hread (.word cs)
  · next digits hread =>
    split at h
    · split at h
      · cases h
      · cases h
        exact .lexeme hread (.number digits)
    · cases h
      exact .lexeme hread (.number digits)
  · next raw hread =>
    split at h
    · next text htext =>
      cases h
      exact .lexeme hread (.string htext)
    · cases h
  · cases h
  · next hread =>
    cases h
    exact .lexeme hread .assign
  · next c hread =>
    cases h
    exact .lexeme hread (.mark c)
  · cases h

theorem skipGaps_length_le (lexer : Lexer) : lexer.skipGaps.rest.length ≤ lexer.rest.length := by
  simp [skipGaps]

namespace Scanned

variable {lexer after : Lexer} {t : Token}

theorem shorter (h : Scanned lexer t after) (ht : t.kind ≠ .eof) :
    after.rest.length < lexer.rest.length := by
  cases h with
  | finish => simp at ht
  | lexeme hread _ =>
    exact Nat.lt_of_lt_of_le (Lexeme.length_drop_chars_lt hread) (skipGaps_length_le lexer)

theorem lexical (h : Scanned lexer t after) : t.Lexical := by
  cases h with
  | finish => trivial
  | lexeme hread hdenotes =>
    cases hdenotes with
    | word cs =>
      obtain ⟨hnumber, hstring⟩ := Lexeme.wordKind_not_literal (String.ofList cs)
      unfold Token.Lexical
      dsimp only
      split
      · next hkind => exact ⟨by simpa using Lexeme.isName_of_read? hread, hkind⟩
      · contradiction
      · contradiction
      · trivial
    | number cs =>
      show Lexeme.isNumeral (String.ofList cs).toList = true
      simpa using Lexeme.isNumeral_of_read? hread
    | mark c =>
      have hkind := Lexeme.markKind_cases c
      unfold Token.Lexical
      dsimp only
      split <;> simp_all
    | _ => trivial

theorem pushed (h : Scanned lexer t after) : after.pushed = lexer.pushed := by
  cases h <;> rfl

end Scanned

/-- The lexer after a token, ready for the one after it. -/
def noted (after : Lexer) (t : Token) : Lexer :=
  { after with lineStart := startsLine t.kind after.lineStart }

theorem scanOn_of_scan_ok {lexer after : Lexer} {t : Token} (h : scan lexer = (.ok t, after)) :
    scanOn lexer = (.ok t, after.noted t) := by
  rw [scanOn, h]
  rfl

theorem scanOn_of_scan_error {lexer after : Lexer} {e : Error}
    (h : scan lexer = (.error e, after)) :
    scanOn lexer = (.error e, after) := by
  rw [scanOn, h]

theorem kind_ne_eof_of_isTrivia {t : Token} (h : t.kind.isTrivia = true) : t.kind ≠ .eof := by
  intro heof
  rw [heof] at h
  exact Bool.false_ne_true h

theorem scanWanted_nothing_left {lexer : Lexer} (h : lexer.rest.length = 0) (count : Nat) :
    scanWanted count lexer = scanOn lexer := by
  cases count with
  | zero => rfl
  | succ count =>
    cases hs : scan lexer with
    | mk r after =>
      cases r with
      | error e => simp [scanWanted, scanOn_of_scan_error hs]
      | ok t =>
        cases htrivia : t.kind.isTrivia with
        | false => simp [scanWanted, scanOn_of_scan_ok hs, htrivia]
        | true =>
          have hshort := (scan_eq_ok hs).shorter (kind_ne_eof_of_isTrivia htrivia)
          omega

/-- Passing over newlines and comments shortens what is left, so that counting up to its length is
counting far enough. -/
theorem scanWanted_enough {count other : Nat} {lexer : Lexer} (h : lexer.rest.length ≤ count)
    (hother : lexer.rest.length ≤ other) : scanWanted count lexer = scanWanted other lexer := by
  induction count generalizing other lexer with
  | zero =>
    have hnil := Nat.le_zero.mp h
    rw [scanWanted_nothing_left hnil, scanWanted_nothing_left hnil]
  | succ count ih =>
    cases other with
    | zero =>
      have hnil := Nat.le_zero.mp hother
      rw [scanWanted_nothing_left hnil, scanWanted_nothing_left hnil]
    | succ other =>
      cases hs : scan lexer with
      | mk r after =>
        cases r with
        | error e => simp [scanWanted, scanOn_of_scan_error hs]
        | ok t =>
          simp only [scanWanted, scanOn_of_scan_ok hs]
          split
          · next htrivia =>
            have hne := kind_ne_eof_of_isTrivia (Bool.and_eq_true_iff.mp htrivia).1
            have hshort : (after.noted t).rest.length < lexer.rest.length :=
              (scan_eq_ok hs).shorter hne
            exact ih (by omega) (by omega)
          · rfl

theorem next_of_pushed {lexer : Lexer} {t : Token} (h : lexer.pushed = some t) :
    next lexer = (.ok t, { lexer with pushed := none }) := by
  rw [next, h]

/-- A token that is wanted is the next one. -/
theorem next_of_wanted {lexer after : Lexer} {t : Token} (hp : lexer.pushed = none)
    (h : scan lexer = (.ok t, after)) (ht : (t.kind.isTrivia && !lexer.keepTrivia) = false) :
    next lexer = (.ok t, after.noted t) := by
  rw [next, hp]
  cases hlen : lexer.rest.length <;> simp [scanWanted, scanOn_of_scan_ok h, ht]

/-- Newlines and comments that are not wanted are passed over. -/
theorem next_of_unwanted {lexer after : Lexer} {t : Token} (hp : lexer.pushed = none)
    (h : scan lexer = (.ok t, after)) (ht : (t.kind.isTrivia && !lexer.keepTrivia) = true) :
    next lexer = next (after.noted t) := by
  have hne := kind_ne_eof_of_isTrivia (Bool.and_eq_true_iff.mp ht).1
  have hshort : (after.noted t).rest.length < lexer.rest.length := (scan_eq_ok h).shorter hne
  have hpushed : (after.noted t).pushed = none := (scan_eq_ok h).pushed.trans hp
  simp only [next, hp, hpushed]
  cases hlen : lexer.rest.length with
  | zero => omega
  | succ n =>
    simp only [scanWanted, scanOn_of_scan_ok h, ht, ↓reduceIte]
    exact scanWanted_enough (by omega) (Nat.le_refl _)

theorem next_of_error {lexer after : Lexer} {e : Error} (hp : lexer.pushed = none)
    (h : scan lexer = (.error e, after)) : next lexer = (.error e, after) := by
  rw [next, hp]
  cases hlen : lexer.rest.length <;> simp [scanWanted, scanOn_of_scan_error h]

/-- What the lexer gives for the next token, newlines and comments passed over. -/
theorem next_scanned {lexer after : Lexer} {t : Token} (hp : lexer.pushed = none)
    (h : next lexer = (.ok t, after)) :
    ∃ before last, Scanned before t last ∧ after = last.noted t ∧
      before.rest.length ≤ lexer.rest.length ∧ before.pushed = none := by
  induction hlen : lexer.rest.length using Nat.strongRecOn generalizing lexer with
  | ind n ih =>
    cases hs : scan lexer with
    | mk r last =>
      cases r with
      | error e =>
        rw [next_of_error hp hs] at h
        cases h
      | ok s =>
        have hscanned := scan_eq_ok hs
        cases hwanted : s.kind.isTrivia && !lexer.keepTrivia with
        | false =>
          rw [next_of_wanted hp hs hwanted] at h
          cases h
          exact ⟨lexer, last, hscanned, rfl, Nat.le_of_eq hlen, hp⟩
        | true =>
          rw [next_of_unwanted hp hs hwanted] at h
          have hshort : (last.noted s).rest.length < n :=
            hlen ▸ hscanned.shorter (kind_ne_eof_of_isTrivia (Bool.and_eq_true_iff.mp hwanted).1)
          have hnone : (last.noted s).pushed = none := hscanned.pushed.trans hp
          obtain ⟨before, final, hscan, hafter, hle, hpushed⟩ := ih _ hshort hnone h rfl
          exact ⟨before, final, hscan, hafter, by omega, hpushed⟩

theorem next_pushed {lexer after : Lexer} {t : Token} (h : next lexer = (.ok t, after)) :
    after.pushed = none := by
  cases hp : lexer.pushed with
  | some held =>
    rw [next_of_pushed hp] at h
    cases h
    rfl
  | none =>
    obtain ⟨before, last, hscan, rfl, _, hpushed⟩ := next_scanned hp h
    exact hscan.pushed.trans hpushed

/-- How many tokens can be left, the end token not counted. -/
def measure (lexer : Lexer) : Nat := lexer.rest.length + lexer.pushed.toList.length

theorem next_measure {lexer after : Lexer} {t : Token} (h : next lexer = (.ok t, after))
    (ht : t.kind ≠ .eof) : after.measure < lexer.measure := by
  cases hp : lexer.pushed with
  | some held =>
    rw [next_of_pushed hp] at h
    cases h
    simp [measure, hp]
  | none =>
    obtain ⟨before, last, hscan, rfl, hle, hpushed⟩ := next_scanned hp h
    have hshort := hscan.shorter ht
    have hnone : last.pushed = none := hscan.pushed.trans hpushed
    simp only [measure, noted, hp, hnone, Option.toList_none, List.length_nil]
    omega

/-- Tokens are all read when as many are asked for as can be left. -/
theorem upTo_enough {count other : Nat} {lexer : Lexer} (h : lexer.measure < count)
    (hother : lexer.measure < other) : upTo count lexer = upTo other lexer := by
  induction count generalizing other lexer with
  | zero => omega
  | succ count ih =>
    cases other with
    | zero => omega
    | succ other =>
      cases hn : next lexer with
      | mk r after =>
        cases r with
        | error e => simp [upTo, hn]
        | ok t =>
          by_cases ht : t.kind = .eof
          · simp [upTo, hn, ht]
          · have hless := next_measure hn ht
            have hrest : upTo count after = upTo other after := ih (by omega) (by omega)
            simp only [upTo, hn, ht, ↓reduceIte, hrest]

theorem measure_lt (lexer : Lexer) : lexer.measure < lexer.rest.length + 2 := by
  cases hp : lexer.pushed <;> simp [measure, hp]

theorem tokens_of_error {lexer after : Lexer} {e : Error} (h : next lexer = (.error e, after)) :
    lexer.tokens = ([], some e, after) := by
  simp [tokens, upTo, h]

theorem tokens_of_eof {lexer after : Lexer} {t : Token} (h : next lexer = (.ok t, after))
    (ht : t.kind = .eof) : lexer.tokens = ([t], none, after) := by
  simp [tokens, upTo, h, ht]

theorem tokens_of_ok {lexer after : Lexer} {t : Token} (h : next lexer = (.ok t, after))
    (ht : t.kind ≠ .eof) : lexer.tokens = (t :: after.tokens.1, after.tokens.2) := by
  have hless := next_measure h ht
  have hbound := measure_lt lexer
  have hrest : upTo (lexer.rest.length + 1) after = after.tokens :=
    upTo_enough (by omega) (measure_lt after)
  rw [tokens, upTo, h]
  simp only [ht, ↓reduceIte, hrest]

/-- Newlines and comments that are not wanted are no tokens. -/
theorem tokens_of_unwanted {lexer after : Lexer} {t : Token} (hp : lexer.pushed = none)
    (h : scan lexer = (.ok t, after)) (ht : (t.kind.isTrivia && !lexer.keepTrivia) = true) :
    lexer.tokens = (after.noted t).tokens := by
  have hnext := next_of_unwanted hp h ht
  cases hn : next (after.noted t) with
  | mk r last =>
    rw [hn] at hnext
    cases r with
    | error e => rw [tokens_of_error hnext, tokens_of_error hn]
    | ok u =>
      by_cases hu : u.kind = .eof
      · rw [tokens_of_eof hnext hu, tokens_of_eof hn hu]
      · rw [tokens_of_ok hnext hu, tokens_of_ok hn hu]

/-- Every token of a source has the form that its kind promises. -/
theorem tokens_lexical (lexer : Lexer) (hp : lexer.pushed = none) :
    ∀ t ∈ lexer.tokens.1, t.Lexical := by
  induction hlen : lexer.measure using Nat.strongRecOn generalizing lexer with
  | ind n ih =>
    cases hn : next lexer with
    | mk r after =>
      cases r with
      | error e => simp [tokens_of_error hn]
      | ok t =>
        obtain ⟨before, last, hscan, _⟩ := next_scanned hp hn
        have hlexical := hscan.lexical
        by_cases ht : t.kind = .eof
        · simp [tokens_of_eof hn ht, hlexical]
        · have hrest := ih _ (hlen ▸ next_measure hn ht) after (next_pushed hn) rfl
          rw [tokens_of_ok hn ht]
          intro u hu
          rcases List.mem_cons.mp hu with rfl | hu
          · exact hlexical
          · exact hrest u hu

/-- The lexer goes through its source lexeme by lexeme, up to the end or to a fault. -/
inductive Course : Lexer → Prop
  | fault {lexer after : Lexer} {e : Error} (hp : lexer.pushed = none)
      (hscan : scan lexer = (.error e, after)) : Course lexer
  | finish {lexer : Lexer} (hp : lexer.pushed = none)
      (hread : Lexeme.read? lexer.skipGaps.rest = none)
      (hscan : scan lexer =
        (.ok ⟨.eof, .absent, lexer.skipGaps.place, lexer.lineStart⟩, lexer.skipGaps)) :
      Course lexer
  | lexeme {lexer : Lexer} {lexeme : Lexeme} {kind : Kind} {text : String}
      (hp : lexer.pushed = none) (hread : Lexeme.read? lexer.skipGaps.rest = some lexeme)
      (hdenotes : lexeme.Denotes kind text)
      (hscan : scan lexer = (.ok ⟨kind, .text text, lexer.skipGaps.place, lexer.lineStart⟩,
        lexer.skipGaps.skip lexeme.chars))
      (rest : Course ((lexer.skipGaps.skip lexeme.chars).noted
        ⟨kind, .text text, lexer.skipGaps.place, lexer.lineStart⟩)) :
      Course lexer

theorem course {lexer : Lexer} (hp : lexer.pushed = none) : Course lexer := by
  induction hlength : lexer.rest.length using Nat.strongRecOn generalizing lexer with
  | ind n ih =>
    cases hscan : scan lexer with
    | mk r after =>
      cases r with
      | error e => exact .fault hp hscan
      | ok t =>
        have hscanned := scan_eq_ok hscan
        have hpushed : (after.noted t).pushed = none := hscanned.pushed.trans hp
        have hshort : t.kind ≠ .eof → (after.noted t).rest.length < n :=
          fun hne => hlength ▸ hscanned.shorter hne
        cases hscanned with
        | finish hread => exact .finish hp hread hscan
        | lexeme hread hdenotes =>
          exact .lexeme hp hread hdenotes hscan (ih _ (hshort hdenotes.kind_ne_eof) hpushed rfl)

end Lexer

end LoopLanguage
