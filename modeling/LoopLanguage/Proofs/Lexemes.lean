import LoopLanguage.Proofs.DescentErrors
import LoopLanguage.Proofs.PhrasesComplete
import LoopLanguage.Proofs.Relocation

/-!
The lexemes of a text. What the lexer gives and what the grammar is fed with are both read off the
lexemes one by one; only the places depend on where the text stands. A line break ends whatever
lexeme it meets, so the lexemes of two lines are those of the one and those of the other.
-/

namespace LoopLanguage

namespace Literal

/-- A literal does not go on after its line. -/
theorem body_newline (cs more : List Char) :
    body (cs ++ '\n' :: more) = ((body cs).1, (body cs).2.map (· ++ '\n' :: more)) := by
  fun_induction body cs with
  | case1 => simp [body]
  | case2 cs => simp [body]
  | case3 cs => simp [body]
  | case4 c cs hc inner rest hinner ih => simp [body, hc, ih, hinner]
  | case5 cs => simp [body]
  | case6 c cs hquote hslash hc inner rest hinner ih =>
    by_cases hc' : c = '\\'
    · subst hc'
      cases cs with
      | nil =>
        cases hinner
        simp [body]
      | cons d cs => exact absurd rfl (hslash d cs rfl)
    · rw [List.cons_append, body]
      · simp [hc, ih, hinner]
      · exact hquote
      · exact fun d ds heq => absurd heq hc'

end Literal

namespace Lexeme

/-- Up to a line break nothing is seen of what comes after it. -/
theorem takeWhile_newline {p : Char → Bool} (hp : p '\n' = false) (cs more : List Char) :
    (cs ++ '\n' :: more).takeWhile p = cs.takeWhile p := by
  induction cs with
  | nil => simp [hp]
  | cons c cs ih => simp [List.takeWhile_cons, ih]

/-- A lexeme does not go on after its line. -/
theorem read?_newline {cs : List Char} (hcs : cs ≠ []) (more : List Char) :
    read? (cs ++ '\n' :: more) = read? cs := by
  cases cs with
  | nil => exact absurd rfl hcs
  | cons c cs =>
    have hhead : ∀ {d : Char}, d ≠ '\n' →
        ((cs ++ '\n' :: more).head? = some d ↔ cs.head? = some d) := by
      intro d hd
      cases cs with
      | nil => simp [hd.symm]
      | cons => simp
    have hwhile : ∀ {p : Char → Bool}, p '\n' = false →
        (c :: (cs ++ '\n' :: more)).takeWhile p = (c :: cs).takeWhile p :=
      fun hp => takeWhile_newline hp (c :: cs) more
    rw [List.cons_append, read?, read?, hwhile (by simp), hwhile (by decide), hwhile (by decide),
      Literal.body_newline]
    simp only [hhead (show '/' ≠ '\n' by decide), hhead (show '=' ≠ '\n' by decide)]
    cases Literal.body cs with
    | mk raw rest => cases rest <;> rfl

theorem drop_takeWhile (p : Char → Bool) (cs : List Char) :
    cs.drop (cs.takeWhile p).length = cs.dropWhile p := by
  induction cs with
  | nil => rfl
  | cons c cs ih => by_cases hc : p c = true <;> simp [hc, ih]

theorem takeWhile_stops {p : Char → Bool} {cs : List Char} {c : Char}
    (h : (cs.drop (cs.takeWhile p).length).head? = some c) : p c = false := by
  have hnot := List.head?_dropWhile_not p cs
  rw [← drop_takeWhile, h] at hnot
  exact hnot

/-- A number goes on up to the first character that is no digit. -/
theorem not_digit_after_number {cs digits : List Char} {c : Char}
    (h : read? cs = some (.number digits)) (hc : (cs.drop digits.length).head? = some c) :
    c.isDigit = false := by
  cases cs with
  | nil => cases h
  | cons d cs =>
    rw [read?] at h
    repeat' split at h
    all_goals cases h
    exact takeWhile_stops hc

/-- The text after the spaces at its front. -/
def trim (cs : List Char) : List Char := cs.drop (cs.takeWhile isGap).length

theorem length_trim_le (cs : List Char) : (trim cs).length ≤ cs.length := by simp [trim]

theorem trim_newline (cs more : List Char) :
    trim (cs ++ '\n' :: more) = trim cs ++ '\n' :: more := by
  rw [trim, takeWhile_newline (by decide), trim,
    List.drop_append_of_le_length (List.takeWhile_sublist _).length_le]

/-- The lexemes of a text, each with the text after it. -/
def row (cs : List Char) : List (Lexeme × List Char) :=
  match _hread : read? (trim cs) with
  | none => []
  | some lexeme =>
    (lexeme, (trim cs).drop lexeme.chars.length) :: row ((trim cs).drop lexeme.chars.length)
termination_by cs.length
decreasing_by exact Nat.lt_of_lt_of_le (length_drop_chars_lt _hread) (length_trim_le cs)

theorem row_of_none {cs : List Char} (h : read? (trim cs) = none) : row cs = [] := by
  rw [row]
  split
  · rfl
  · next hread => rw [h] at hread; cases hread

theorem row_of_some {cs : List Char} {lexeme : Lexeme} (h : read? (trim cs) = some lexeme) :
    row cs = (lexeme, (trim cs).drop lexeme.chars.length) ::
      row ((trim cs).drop lexeme.chars.length) := by
  rw [row]
  split
  · next hread => rw [h] at hread; cases hread
  · next found hread =>
    obtain rfl : found = lexeme := Option.some.inj (hread.symm.trans h)
    rfl

theorem row_eq_nil {cs : List Char} (h : row cs = []) : read? (trim cs) = none := by
  cases hread : read? (trim cs) with
  | none => rfl
  | some lexeme => rw [row_of_some hread] at h; cases h

theorem row_eq_cons {cs rest : List Char} {lexeme : Lexeme} {row' : List (Lexeme × List Char)}
    (h : row cs = (lexeme, rest) :: row') :
    read? (trim cs) = some lexeme ∧ rest = (trim cs).drop lexeme.chars.length ∧
      row' = row rest := by
  cases hread : read? (trim cs) with
  | none => rw [row_of_none hread] at h; cases h
  | some found => rw [row_of_some hread] at h; cases h; exact ⟨rfl, rfl, rfl⟩

/-- The lexemes of two lines. -/
theorem row_newline (cs more : List Char) :
    row (cs ++ '\n' :: more) =
      (row cs).map (fun l => (l.1, l.2 ++ '\n' :: more)) ++ (.newline, more) :: row more := by
  induction hlength : cs.length using Nat.strongRecOn generalizing cs with
  | ind n ih =>
    cases hread : read? (trim cs) with
    | none =>
      have hline : read? (trim (cs ++ '\n' :: more)) = some .newline := by
        rw [trim_newline, eq_nil_of_read? hread]
        rfl
      rw [row_of_some hline, row_of_none hread, trim_newline, eq_nil_of_read? hread]
      rfl
    | some lexeme =>
      have hne : trim cs ≠ [] := by
        intro hnil
        rw [hnil] at hread
        cases hread
      have hline : read? (trim (cs ++ '\n' :: more)) = some lexeme := by
        rw [trim_newline, read?_newline hne, hread]
      have hfront : lexeme.chars.length ≤ (trim cs).length := by
        obtain ⟨rest, hrest⟩ := read?_front hread
        simp [hrest]
      have hshort : ((trim cs).drop lexeme.chars.length).length < n :=
        hlength ▸ Nat.lt_of_lt_of_le (length_drop_chars_lt hread) (length_trim_le cs)
      rw [row_of_some hline, row_of_some hread, trim_newline, List.drop_append_of_le_length hfront,
        ih _ hshort _ rfl]
      rfl

end Lexeme

/-! ### Tokens -/

/-- `Row start lexemes ts`: the lexemes make the tokens `ts`, wherever they stand; `start` says that
nothing but line breaks and comments came before on the line. -/
inductive Row : Bool → List (Lexeme × List Char) → List Token → Prop
  | nil {start : Bool} : Row start [] []
  | trivia {start : Bool} {lexeme : Lexeme} {kind : Kind} {text : String} {cs : List Char}
      {ls : List (Lexeme × List Char)} {ts : List Token} (hdenotes : lexeme.Denotes kind text)
      (htrivia : kind.isTrivia = true) (rest : Row (Lexer.startsLine kind start) ls ts) :
      Row start ((lexeme, cs) :: ls) ts
  | token {start : Bool} {lexeme : Lexeme} {kind : Kind} {text : String} {cs : List Char}
      {ls : List (Lexeme × List Char)} {ts : List Token} (hdenotes : lexeme.Denotes kind text)
      (htrivia : kind.isTrivia = false)
      (hloose : ∀ digits, lexeme = .number digits → Loose cs) (place : Place)
      (rest : Row false ls ts) :
      Row start ((lexeme, cs) :: ls) (⟨kind, .text text, place, start⟩ :: ts)

namespace Row

variable {start : Bool} {ls ms : List (Lexeme × List Char)} {ts us : List Token}

/-- What comes after a line break makes the same tokens as a line of its own. -/
theorem newline (h : Row start ls ts) (more : List Char) (h' : Row true ms us) :
    Row start (ls.map (fun l => (l.1, l.2 ++ '\n' :: more)) ++ (.newline, more) :: ms)
      (ts ++ us) := by
  induction h with
  | nil => exact .trivia .newline rfl h'
  | trivia hdenotes htrivia _ ih => exact .trivia hdenotes htrivia ih
  | token hdenotes htrivia hloose place _ ih =>
    refine .token hdenotes htrivia (fun digits hdigits => ?_) place ih
    exact (hloose digits hdigits).append (Loose.cons (by decide) more)

/-- The first token of a line opens it. -/
theorem lineStart {t : Token} (h : Row start ls (t :: ts)) (hstart : start = true) :
    t.lineStart = true := by
  generalize hcons : t :: ts = all at h
  induction h with
  | nil => cases hcons
  | @trivia start lexeme kind _ _ _ _ _ htrivia _ ih =>
    refine ih ?_ hcons
    cases kind <;> first | rfl | exact hstart | cases htrivia
  | token _ _ _ _ _ =>
    cases hcons
    exact hstart

end Row

namespace Lexer

theorem startsLine_of_not_trivia {kind : Kind} (h : kind.isTrivia = false) (before : Bool) :
    startsLine kind before = false := by
  cases kind <;> first | rfl | cases h

/-- A number that the lexer gives is not run into by a word. -/
theorem loose_of_scan {lexer after : Lexer} {t : Token} (h : scan lexer = (.ok t, after))
    {digits : List Char} (hread : Lexeme.read? lexer.skipGaps.rest = some (.number digits)) :
    Loose (lexer.skipGaps.skip digits).rest := by
  intro c hc
  have hdigit : c.isDigit = false := Lexeme.not_digit_after_number hread hc
  obtain ⟨cs, hcs⟩ := List.head?_eq_some_iff.mp hc
  have hstart : Lexeme.isNameStart c = false := by
    unfold scan at h
    simp only [hread, hcs] at h
    split at h
    · cases h
    · next hstart => exact Bool.eq_false_iff.mpr hstart
  simp only [Lexeme.isNameStart, Bool.or_eq_false_iff] at hstart
  simp [Lexeme.isNameChar, Char.isAlphanum, hstart, hdigit]

variable {lexer : Lexer}

/-- Without lexical errors the tokens of a source are those of its lexemes. -/
theorem row_of_no_fault (hp : lexer.pushed = none) (hkeep : lexer.keepTrivia = false)
    (hfault : lexer.tokens.2.1 = none) :
    ∃ ts last, lexer.tokens.1 = ts ++ [last] ∧ last.kind = .eof ∧
      Row lexer.lineStart (Lexeme.row lexer.rest) ts := by
  have hcourse := course hp
  clear hp
  induction hcourse with
  | fault hp hscan =>
    rw [tokens_of_error (next_of_error hp hscan)] at hfault
    cases hfault
  | finish hp hread hscan =>
    have hnext := next_of_wanted hp hscan (by simp [Kind.isTrivia])
    rw [tokens_of_eof hnext rfl, Lexeme.row_of_none hread]
    exact ⟨[], _, rfl, rfl, .nil⟩
  | @lexeme lexer lexeme kind text hp hread hdenotes hscan _ ih =>
    rw [Lexeme.row_of_some hread]
    cases htrivia : kind.isTrivia with
    | true =>
      have htokens := tokens_of_unwanted hp hscan (by simp [htrivia, hkeep])
      rw [htokens] at hfault ⊢
      obtain ⟨ts, last, hts, hlast, hrow⟩ := ih hkeep hfault
      exact ⟨ts, last, hts, hlast, .trivia hdenotes htrivia hrow⟩
    | false =>
      have hnext := next_of_wanted hp hscan (by simp [htrivia])
      have htokens := tokens_of_ok hnext hdenotes.kind_ne_eof
      rw [htokens] at hfault
      obtain ⟨ts, last, hts, hlast, hrow⟩ := ih hkeep hfault
      rw [htokens, hts]
      refine ⟨_ :: ts, last, rfl, hlast, .token hdenotes htrivia ?_ _ ?_⟩
      · rintro digits rfl
        exact loose_of_scan hscan hread
      · have hstart : startsLine kind lexer.lineStart = false :=
          startsLine_of_not_trivia htrivia _
        exact hstart ▸ hrow

/-- The lexer gives the tokens that the lexemes of a source make. -/
theorem tokens_of_row (hp : lexer.pushed = none) (hkeep : lexer.keepTrivia = false)
    {ts : List Token} (h : Row lexer.lineStart (Lexeme.row lexer.rest) ts) :
    ∃ us last, lexer.tokens.1 = us ++ [last] ∧ lexer.tokens.2.1 = none ∧ last.kind = .eof ∧
      Moved ts us := by
  generalize hstart : lexer.lineStart = start at h
  generalize hls : Lexeme.row lexer.rest = ls at h
  induction h generalizing lexer with
  | nil =>
    have hscan : scan lexer =
        (.ok ⟨.eof, .absent, lexer.skipGaps.place, lexer.lineStart⟩, lexer.skipGaps) := by
      have hread : Lexeme.read? lexer.skipGaps.rest = none := Lexeme.row_eq_nil hls
      unfold scan
      simp only [hread]
      rfl
    have htokens := tokens_of_eof (next_of_wanted hp hscan (by simp [Kind.isTrivia])) rfl
    exact ⟨[], _, congrArg Prod.fst htokens, congrArg (·.2.1) htokens, rfl, .nil⟩
  | @trivia start lexeme kind text cs ls ts hdenotes htrivia _ ih =>
    obtain ⟨hread, rfl, rfl⟩ := Lexeme.row_eq_cons hls
    have hscan := scan_of_denotes hread hdenotes (by
      rintro digits rfl
      cases hdenotes
      cases htrivia)
    rw [tokens_of_unwanted hp hscan (by simp [htrivia, hkeep])]
    exact ih hp hkeep (by rw [← hstart]; rfl) rfl
  | @token start lexeme kind text cs ls ts hdenotes htrivia hloose place _ ih =>
    obtain ⟨hread, rfl, rfl⟩ := Lexeme.row_eq_cons hls
    have hscan := scan_of_denotes hread hdenotes fun digits hdigits => by
      subst hdigits
      exact hloose digits rfl
    have htokens := tokens_of_ok (next_of_wanted hp hscan (by simp [htrivia])) hdenotes.kind_ne_eof
    obtain ⟨us, last, hus, hfault, hlast, hmoved⟩ :=
      @ih ((lexer.skipGaps.skip lexeme.chars).noted
        ⟨kind, .text text, lexer.skipGaps.place, lexer.lineStart⟩) hp hkeep
        (startsLine_of_not_trivia htrivia _) rfl
    rw [htokens, hus]
    exact ⟨_ :: us, last, rfl, hfault, hlast, hstart ▸ .cons _ hmoved⟩

end Lexer

/-! ### Pieces -/

namespace Grammar

/-- One lexeme of a text, seen by the grammar at some place. -/
theorem piecesFrom_of_read {cs : List Char} {lexeme : Lexeme}
    (h : Lexeme.read? (Lexeme.trim cs) = some lexeme) (count : Nat) (place : Place) :
    ∃ here next, piecesFrom (count + 1) place cs =
      match terminal? lexeme with
      | .error c => ([], some (.unexpectedCharacter c here))
      | .ok none => piecesFrom count next ((Lexeme.trim cs).drop lexeme.chars.length)
      | .ok (some terminal) =>
        let found := piecesFrom count next ((Lexeme.trim cs).drop lexeme.chars.length)
        (⟨terminal, String.ofList lexeme.chars, here⟩ :: found.1, found.2) := by
  rw [Lexeme.trim] at h
  let here := (cs.takeWhile Lexeme.isGap).foldl Place.after place
  refine ⟨here, lexeme.chars.foldl Place.after here, ?_⟩
  rw [piecesFrom]
  simp only [h]
  cases terminal? lexeme with
  | error c => rfl
  | ok terminal => cases terminal <;> rfl

/-- The piece as it is, its place aside. -/
def Piece.unplaced (piece : Piece) : Piece := { piece with place := ⟨1, 1⟩ }

theorem Piece.map_flat_unplaced (pieces : List Piece) :
    (pieces.map flat).map Token.unplaced = (pieces.map unplaced).map flat := by
  rw [List.map_map, List.map_map]
  rfl

/-- The piece that a lexeme makes, its place aside. -/
def pieceOf? (l : Lexeme × List Char) : Option Piece :=
  match terminal? l.1 with
  | .ok (some terminal) => some ⟨terminal, String.ofList l.1.chars, ⟨1, 1⟩⟩
  | _ => none

/-- The lexeme fits a terminal, or is passed over. -/
def Fits (l : Lexeme × List Char) : Prop := ∃ terminal, terminal? l.1 = .ok terminal

/-- The pieces of a text are those of its lexemes, and it has a fault unless all of them fit. -/
theorem piecesFrom_row {count : Nat} {cs : List Char} (hcount : cs.length < count) (place : Place) :
    ((piecesFrom count place cs).2 = none ↔ ∀ l ∈ Lexeme.row cs, Fits l) ∧
      ((piecesFrom count place cs).2 = none →
        (piecesFrom count place cs).1.map Piece.unplaced = (Lexeme.row cs).filterMap pieceOf?) := by
  induction count generalizing cs place with
  | zero => omega
  | succ count ih =>
    cases hread : Lexeme.read? (Lexeme.trim cs) with
    | none =>
      have hnone : piecesFrom (count + 1) place cs = ([], none) := by
        rw [Lexeme.trim] at hread
        simp only [piecesFrom, hread]
      simp [hnone, Lexeme.row_of_none hread]
    | some lexeme =>
      have hshort := Lexeme.length_drop_chars_lt hread
      have hle := Lexeme.length_trim_le cs
      obtain ⟨here, next, heq⟩ := piecesFrom_of_read hread count place
      obtain ⟨hfault, hpieces⟩ := @ih ((Lexeme.trim cs).drop lexeme.chars.length) (by omega) next
      rw [heq, Lexeme.row_of_some hread, List.forall_mem_cons]
      cases hterminal : terminal? lexeme with
      | error c => simp [Fits, hterminal]
      | ok terminal =>
        refine ⟨?_, ?_⟩
        · rw [and_iff_right ⟨terminal, hterminal⟩]
          cases terminal <;> exact hfault
        · cases terminal with
          | none =>
            rw [List.filterMap_cons_none (by simp [pieceOf?, hterminal])]
            exact hpieces
          | some terminal =>
            intro h
            have hpiece : pieceOf? (lexeme, (Lexeme.trim cs).drop lexeme.chars.length) =
                some ⟨terminal, String.ofList lexeme.chars, ⟨1, 1⟩⟩ := by
              simp only [pieceOf?, hterminal]
            rw [List.filterMap_cons_some hpiece, ← hpieces h]
            rfl

theorem Feed.ofSource_row (source : String) :
    ((ofSource source).fault = none ↔ ∀ l ∈ Lexeme.row source.toList, Fits l) ∧
      ((ofSource source).fault = none → (ofSource source).pieces.map Piece.unplaced =
        (Lexeme.row source.toList).filterMap pieceOf?) :=
  piecesFrom_row (Nat.lt_succ_self _) _

/-- A line break between two sources is a separator between their pieces. -/
theorem Feed.ofSource_newline {first second : String} (h : (ofSource first).fault = none)
    (h' : (ofSource second).fault = none) :
    (ofSource (first ++ "\n" ++ second)).fault = none ∧
      (ofSource (first ++ "\n" ++ second)).pieces.map Piece.unplaced =
        ((ofSource first).pieces ++
          ⟨.separator, "\n", ⟨1, 1⟩⟩ :: (ofSource second).pieces).map Piece.unplaced := by
  have hrow := ofSource_row
  have htext : Lexeme.row (first ++ "\n" ++ second).toList =
      (Lexeme.row first.toList).map (fun l => (l.1, l.2 ++ '\n' :: second.toList)) ++
        (.newline, second.toList) :: Lexeme.row second.toList := by
    rw [← Lexeme.row_newline]
    simp
  have hfault : (ofSource (first ++ "\n" ++ second)).fault = none := by
    rw [(hrow _).1, htext]
    intro l hl
    rcases List.mem_append.mp hl with hl | hl
    · obtain ⟨m, hm, rfl⟩ := List.mem_map.mp hl
      exact (hrow first).1.mp h m hm
    · rcases List.mem_cons.mp hl with rfl | hl
      · exact ⟨some .separator, rfl⟩
      · exact (hrow second).1.mp h' l hl
  refine ⟨hfault, ?_⟩
  rw [(hrow _).2 hfault, htext, List.filterMap_append, List.filterMap_map, List.map_append,
    List.map_cons, (hrow first).2 h, (hrow second).2 h']
  rfl

end Grammar

end LoopLanguage
