import LoopLanguage.Proofs.Spelling

/-!
Statements written down as they are. `Statement.write` gives the characters of a statement at a
depth and `Statement.tokens` the tokens that it spells, the first of which opens a line. Both know
nothing of parsers and printers: the tokens are a sentence for the statement, and the printer
writes the statement that `Statement.respell` gives.
-/

namespace LoopLanguage

open LoopLanguage.Text (pad)

/-- An item of `INPUT` or `OUTPUT` as it is written. -/
def Token.glyphs (t : Token) : String :=
  if t.kind = .string then Literal.quote t.text.content else t.text.content

/-- A token that opens a line. -/
def Token.opener (kind : Kind) (word : String) : Token := ⟨kind, .text word, ⟨1, 1⟩, true⟩

/-- A token within a line. -/
def Token.within (kind : Kind) (word : String) : Token := ⟨kind, .text word, ⟨1, 1⟩, false⟩

/-- A name within a line. -/
def Token.name (a : Atom) : Token := ⟨.identifier, a, ⟨1, 1⟩, false⟩

/-- Names with their commas and the closing parenthesis. -/
def nameTokens : List Atom → List Token
  | [] => [.within .rightParen ")"]
  | [a] => [.name a, .within .rightParen ")"]
  | a :: b :: names => .name a :: .within .comma "," :: nameTokens (b :: names)

/-- Items with their commas. -/
def itemTokens : List Token → List Token
  | [] => []
  | [t] => [t]
  | t :: u :: items => t :: .within .comma "," :: itemTokens (u :: items)

namespace Statement

/-- The first line of a statement, without the spaces before it. -/
def line : Statement → String
  | assign target value => target.content ++ " := " ++ toString value
  | increment target operand => target.content ++ " := " ++ operand.content ++ " + 1"
  | call target callee args =>
    target.content ++ " := " ++ callee.content ++ "(" ++
      ", ".intercalate (args.map Atom.content) ++ ")"
  | input targets => "INPUT " ++ ", ".intercalate (targets.map Token.glyphs)
  | output items => "OUTPUT " ++ ", ".intercalate (items.map Token.glyphs)
  | loop count _ => "LOOP " ++ count.content ++ " DO"
  | define name params _ =>
    "PROGRAM " ++ name.content ++ "(" ++ ", ".intercalate (params.map Atom.content) ++ ") DO"
  | _ => ""

/-- The tokens of the first line. -/
def lineTokens : Statement → List Token
  | assign target value =>
    [⟨.identifier, target, ⟨1, 1⟩, true⟩, .within .assign ":=", .within .number (toString value)]
  | increment target operand =>
    [⟨.identifier, target, ⟨1, 1⟩, true⟩, .within .assign ":=", .name operand, .within .plus "+",
      .within .number "1"]
  | call target callee args =>
    ⟨.identifier, target, ⟨1, 1⟩, true⟩ :: .within .assign ":=" :: .name callee ::
      .within .leftParen "(" :: nameTokens args
  | input targets => .opener .kwInput "INPUT" :: itemTokens targets
  | output items => .opener .kwPrint "OUTPUT" :: itemTokens items
  | loop count _ => [.opener .kwLoop "LOOP", .name count, .within .kwDo "DO"]
  | define name params _ =>
    .opener .kwProgram "PROGRAM" :: .name name :: .within .leftParen "(" ::
      (nameTokens params ++ [.within .kwDo "DO"])
  | _ => []

/-- A block at a depth: its header, its body and the closing word. -/
def writeBlock (depth : Nat) (header : String) (body : List Char) : List Char :=
  pad depth ++ header.toList ++ '\n' :: (body ++ (pad depth ++ "END".toList))

mutual

/-- A statement at a depth. -/
def write : Nat → Statement → List Char
  | depth, loop count body =>
    writeBlock depth (line (loop count body)) (writeAll (depth + 1) body)
  | depth, define name params body =>
    writeBlock depth (line (define name params body)) (writeAll (depth + 1) body)
  | depth, s => pad depth ++ (line s).toList

/-- Statements at a depth, each with the newline after it. -/
def writeAll : Nat → List Statement → List Char
  | _, [] => []
  | depth, s :: rest => write depth s ++ '\n' :: writeAll depth rest

end

mutual

def tokens : Statement → List Token
  | loop count body =>
    lineTokens (loop count body) ++ (tokensAll body ++ [.opener .kwEnd "END"])
  | define name params body =>
    lineTokens (define name params body) ++ (tokensAll body ++ [.opener .kwEnd "END"])
  | s => lineTokens s

def tokensAll : List Statement → List Token
  | [] => []
  | s :: rest => tokens s ++ tokensAll rest

end

end Statement

namespace Spells

variable {start finish : Bool} {cs : List Char} {ts : List Token} {place : Place}

theorem identifier {a : Atom} (ha : a.IsIdentifier) (hloose : Loose cs)
    (rest : Spells false cs ts finish) :
    Spells start (a.content.toList ++ cs) (⟨.identifier, a, place, start⟩ :: ts) finish := by
  have hword := @word start finish cs ts place a.content ha.isName hloose rest
  rw [ha.wordKind, ← ha.eq_text] at hword
  exact hword

theorem nameList {names : List Atom} (hnames : ∀ name ∈ names, name.IsIdentifier)
    (rest : Spells false cs ts finish) :
    Spells false ((", ".intercalate (names.map Atom.content)).toList ++ ')' :: cs)
      (nameTokens names ++ ts) finish := by
  induction names with
  | nil => exact mark (by decide) rest
  | cons a names ih =>
    have hparen : Loose (')' :: cs) := .cons (by decide) cs
    cases names with
    | nil => exact identifier (hnames a (by simp)) hparen (mark (by decide) rest)
    | cons b names =>
      have hmore := ih fun name hname => hnames name (by simp [hname])
      rw [List.map_cons, List.map_cons, String.intercalate_cons_cons, String.toList_append,
        String.toList_append, List.append_assoc, List.append_assoc]
      refine identifier (hnames a (by simp)) (.cons (by decide) _) ?_
      exact mark (c := ',') (by decide) hmore.space

theorem item {t : Token} (hkind : t.kind ∈ itemKinds) (hlexical : t.Lexical)
    (hline : t.lineStart = false) (hloose : Loose cs) (rest : Spells false cs ts finish) :
    Spells false (t.glyphs.toList ++ cs) (t :: ts) finish := by
  obtain ⟨kind, text, place, lineStart⟩ := t
  obtain rfl : lineStart = false := hline
  simp only [itemKinds, List.mem_cons, List.not_mem_nil, or_false] at hkind
  rcases hkind with rfl | rfl | rfl
  · obtain ⟨s, rfl⟩ : ∃ s, text = .text s := hlexical.exists_text rfl
    have hquote : (Token.glyphs ⟨.string, .text s, place, false⟩).toList =
        '"' :: Literal.encode s.toList ++ ['"'] := by
      simp [Token.glyphs, Literal.quote, Atom.content]
    rw [hquote]
    exact string s rest
  · cases text with
    | text s => exact number hlexical hloose rest
    | absent => exact hlexical.elim
    | other => exact hlexical.elim
  · exact identifier (hlexical.identifier rfl) hloose rest

theorem itemList {items : List Token}
    (hitems : ∀ t ∈ items, t.kind ∈ itemKinds ∧ t.Lexical ∧ t.lineStart = false)
    (hloose : Loose cs) (rest : Spells false cs ts finish) :
    Spells false ((", ".intercalate (items.map Token.glyphs)).toList ++ cs)
      (itemTokens items ++ ts) finish := by
  induction items with
  | nil => exact rest
  | cons t items ih =>
    obtain ⟨hkind, hlexical, hline⟩ := hitems t (by simp)
    cases items with
    | nil => exact item hkind hlexical hline hloose rest
    | cons u items =>
      have hmore := ih fun v hv => hitems v (by simp [hv])
      rw [List.map_cons, List.map_cons, String.intercalate_cons_cons, String.toList_append,
        String.toList_append, List.append_assoc, List.append_assoc]
      refine item hkind hlexical hline (.cons (by decide) _) ?_
      exact mark (c := ',') (by decide) hmore.space

end Spells

namespace Statement

mutual

/-- All items of lists stand within their lines. -/
def Tidy : Statement → Prop
  | input targets => ∀ t ∈ targets, t.lineStart = false
  | output items => ∀ t ∈ items, t.lineStart = false
  | loop _ body => TidyAll body
  | define _ _ body => TidyAll body
  | _ => True

def TidyAll : List Statement → Prop
  | [] => True
  | s :: rest => Tidy s ∧ TidyAll rest

end

mutual

/-- A respelled statement is tidy. -/
theorem respell_tidy (strings : Nat → String → String) : ∀ (depth : Nat) (s : Statement),
    (respell strings depth s).Tidy
  | _, .input targets => by simp [respell, Tidy]
  | _, .output items => by simp [respell, Tidy]
  | depth, .loop _ body | depth, .define _ _ body => respellAll_tidy strings (depth + 1) body
  | _, .assign .. | _, .increment .. | _, .call .. | _, .missing | _, .token _
  | _, .program _ => trivial

theorem respellAll_tidy (strings : Nat → String → String) : ∀ (depth : Nat)
    (body : List Statement), TidyAll (respellAll strings depth body)
  | _, [] => trivial
  | depth, s :: body => ⟨respell_tidy strings depth s, respellAll_tidy strings depth body⟩

end

theorem toString_natCast (n : Nat) : toString (n : Int) = toString n := rfl

/-- The first line of a regular statement spells its tokens. -/
theorem line_spells {s : Statement} (hregular : s.Regular) (htidy : s.Tidy) :
    Spells true s.line.toList s.lineTokens false := by
  have hend : Loose [] := by
    intro c hc
    cases hc
  have hdone : Spells false [] [] false := .done (by simp)
  cases s with
  | assign target value =>
    obtain ⟨htarget, hnonneg, _⟩ := hregular
    obtain ⟨n, rfl⟩ := Int.eq_ofNat_of_zero_le hnonneg
    have hdigits : Lexeme.isNumeral (toString (n : Int)).toList = true := by
      rw [toString_natCast, Nat.toString_eq_ofList_toDigits, String.toList_ofList]
      exact Text.isNumeral_toDigits n
    have hnumber := @Spells.number false false [] [] ⟨1, 1⟩ _ hdigits hend hdone
    rw [List.append_nil] at hnumber
    simp only [line, String.toList_append, List.append_assoc]
    refine .identifier htarget (.cons (by decide) _) ?_
    exact (Spells.assign hnumber.space).space
  | increment target operand =>
    simp only [line, String.toList_append, List.append_assoc]
    refine .identifier hregular.1 (.cons (by decide) _) ?_
    refine (Spells.assign (Spells.space ?_)).space
    refine .identifier hregular.2 (.cons (by decide) _) ?_
    refine (Spells.mark (c := '+') (by decide) (Spells.space ?_)).space
    exact @Spells.number false false [] [] ⟨1, 1⟩ "1" (by decide) hend hdone
  | call target callee args =>
    simp only [line, String.toList_append, List.append_assoc]
    refine .identifier hregular.1 (.cons (by decide) _) ?_
    refine (Spells.assign (Spells.space ?_)).space
    refine .identifier hregular.2.1 (.cons (by decide) _) ?_
    refine Spells.mark (c := '(') (by decide) ?_
    rw [← List.append_nil (nameTokens args)]
    exact .nameList hregular.2.2 hdone
  | input targets =>
    simp only [line, String.toList_append]
    have hitems := @Spells.itemList false [] [] targets (fun t ht =>
      ⟨(targetKinds_subset (hregular.2 t ht).1).1, (hregular.2 t ht).2, htidy t ht⟩) hend hdone
    rw [List.append_nil, List.append_nil] at hitems
    exact @Spells.word true false _ _ ⟨1, 1⟩ "INPUT" (by decide) (.cons (by decide) _) hitems.space
  | output items =>
    simp only [line, String.toList_append]
    have hitems := @Spells.itemList false [] [] items (fun t ht =>
      ⟨(hregular.2 t ht).1, (hregular.2 t ht).2.1, htidy t ht⟩) hend hdone
    rw [List.append_nil, List.append_nil] at hitems
    exact @Spells.word true false _ _ ⟨1, 1⟩ "OUTPUT" (by decide) (.cons (by decide) _) hitems.space
  | loop count body =>
    simp only [line, String.toList_append, List.append_assoc]
    refine @Spells.word true false _ _ ⟨1, 1⟩ "LOOP" (by decide) (.cons (by decide) _) (Spells.space ?_)
    refine .identifier hregular.1 (.cons (by decide) _) (Spells.space ?_)
    exact @Spells.word false false [] [] ⟨1, 1⟩ "DO" (by decide) hend hdone
  | define name params body =>
    simp only [line, String.toList_append, List.append_assoc]
    refine @Spells.word true false _ _ ⟨1, 1⟩ "PROGRAM" (by decide) (.cons (by decide) _)
      (Spells.space ?_)
    refine .identifier hregular.1 (.cons (by decide) _) ?_
    refine Spells.mark (c := '(') (by decide) ?_
    refine .nameList hregular.2.1 (Spells.space ?_)
    exact @Spells.word false false [] [] ⟨1, 1⟩ "DO" (by decide) hend hdone
  | missing => exact hregular.elim
  | token => exact hregular.elim
  | program => exact hregular.elim

theorem isGap_of_mem_pad {depth : Nat} {c : Char} (h : c ∈ pad depth) : Lexeme.isGap c = true := by
  rw [(List.mem_replicate.mp h).2]
  rfl

/-- A block spells its header, its body and `END`. -/
theorem writeBlock_spells {header : String} {body : List Char} {headerTokens bodyTokens : List Token}
    (depth : Nat) (hheader : Spells true header.toList headerTokens false)
    (hbody : ∀ {cs : List Char} {ts : List Token}, Spells true cs ts false →
      Spells true (body ++ cs) (bodyTokens ++ ts) false) :
    Spells true (writeBlock depth header body)
      (headerTokens ++ (bodyTokens ++ [.opener .kwEnd "END"])) false := by
  have hend : Spells true (pad depth ++ "END".toList) [.opener .kwEnd "END"] false := by
    refine .gaps (fun _ => isGap_of_mem_pad) ?_
    exact @Spells.word true false [] [] ⟨1, 1⟩ "END" (by decide) (fun c hc => by cases hc)
      (.done (by simp))
  refine .append (.gaps (fun _ => isGap_of_mem_pad) hheader) ?_ (.cons (by decide) _)
  exact @Spells.newline false _ [] _ _ (by simp) (hbody hend)

mutual

/-- A regular statement spells its tokens at every depth. -/
theorem write_spells : ∀ (s : Statement) (depth : Nat), s.Regular → s.Tidy →
    Spells true (write depth s) s.tokens false
  | .loop _ body, depth, hregular, htidy =>
    writeBlock_spells depth (line_spells hregular htidy)
      (writeAll_spells body (depth + 1) hregular.2 htidy)
  | .define _ _ body, depth, hregular, htidy =>
    writeBlock_spells depth (line_spells hregular htidy)
      (writeAll_spells body (depth + 1) hregular.2.2.2 htidy)
  | .assign .., _, hregular, htidy | .increment .., _, hregular, htidy
  | .call .., _, hregular, htidy | .input _, _, hregular, htidy
  | .output _, _, hregular, htidy => by
    rw [write, tokens]
    · exact .gaps (fun _ => isGap_of_mem_pad) (line_spells hregular htidy)
    all_goals simp
  | .missing, _, hregular, _ | .token _, _, hregular, _ | .program _, _, hregular, _ =>
    hregular.elim

theorem writeAll_spells : ∀ (body : List Statement) (depth : Nat) {cs : List Char}
    {ts : List Token} {finish : Bool}, RegularAll body → TidyAll body →
    Spells true cs ts finish →
    Spells true (writeAll depth body ++ cs) (tokensAll body ++ ts) finish
  | [], _, _, _, _, _, _, rest => rest
  | s :: body, depth, _, _, _, hregular, htidy, rest => by
    rw [writeAll, tokensAll, List.append_assoc, List.append_assoc]
    refine (write_spells s depth hregular.1 htidy.1).append ?_ (.cons (by decide) _)
    exact @Spells.newline false _ [] _ _ (by simp)
      (writeAll_spells body depth hregular.2 htidy.2 rest)

end

/-- A program: its statements on lines of their own. -/
theorem joined_spells {body : List Statement} (hregular : RegularAll body) (htidy : TidyAll body) :
    ∃ finish, Spells true (['\n'].intercalate (body.map (write 0))) (tokensAll body) finish := by
  induction body with
  | nil => exact ⟨true, .done (by simp)⟩
  | cons s body ih =>
    have hfirst := write_spells s 0 hregular.1 htidy.1
    cases body with
    | nil =>
      refine ⟨false, ?_⟩
      simpa [tokensAll] using hfirst
    | cons s' body =>
      obtain ⟨finish, hrest⟩ := ih hregular.2 htidy.2
      refine ⟨finish, ?_⟩
      rw [List.map_cons, List.map_cons, List.intercalate_cons_cons, List.append_assoc]
      exact hfirst.append (@Spells.newline false _ [] _ _ (by simp) hrest) (.cons (by decide) _)

end Statement

theorem nameTokens_nameList (names : List Atom) : NameList (nameTokens names) names := by
  have hnames : ∀ (names : List Atom), names ≠ [] → Names (nameTokens names) names := by
    intro names hne
    induction names with
    | nil => exact absurd rfl hne
    | cons a names ih =>
      cases names with
      | nil => exact @Names.last (.name a) (.within .rightParen ")") rfl rfl
      | cons b names => exact @Names.more (.name a) _ _ _ rfl rfl (ih (by simp))
  cases names with
  | nil => exact .none rfl
  | cons a names => exact .some (hnames _ (by simp))

theorem lineStart_of_mem_nameTokens {names : List Atom} {t : Token} (h : t ∈ nameTokens names) :
    t.lineStart = false := by
  induction names using nameTokens.induct <;>
    simp only [nameTokens, List.mem_cons, List.not_mem_nil, or_false] at h
  · rw [h]
    rfl
  · rcases h with rfl | rfl <;> rfl
  · next ih =>
    rcases h with rfl | rfl | h
    · rfl
    · rfl
    · exact ih h

theorem itemTokens_itemList {kinds : List Kind} {items : List Token} (hne : items ≠ [])
    (hitems : ∀ t ∈ items, t.kind ∈ kinds ∧ t.lineStart = false) :
    ItemList kinds (itemTokens items) items := by
  induction items with
  | nil => exact absurd rfl hne
  | cons t items ih =>
    cases items with
    | nil => exact .mk (hitems t (by simp)).1 .done
    | cons u items =>
      have hrest := ih (by simp) fun v hv => hitems v (by simp [hv])
      rw [itemTokens]
      generalize itemTokens (u :: items) = ts at hrest ⊢
      cases hrest with
      | mk hfirst rest =>
        exact .mk (hitems t (by simp)).1 (.more rfl rfl hfirst (hitems u (by simp)).2 rest)

theorem lineStart_of_mem_itemTokens {items : List Token} {t : Token}
    (hitems : ∀ t ∈ items, t.lineStart = false) (h : t ∈ itemTokens items) :
    t.lineStart = false := by
  induction items using itemTokens.induct with
  | case1 => cases h
  | case2 u =>
    obtain rfl := List.mem_singleton.mp h
    exact hitems t (by simp)
  | case3 u v items ih =>
    simp only [itemTokens, List.mem_cons] at h
    rcases h with rfl | rfl | h
    · exact hitems t (by simp)
    · rfl
    · exact ih (fun w hw => hitems w (by simp [hw])) h

namespace Statement

theorem tokens_head {s : Statement} (hregular : s.Regular) :
    ∃ t ts, s.tokens = t :: ts ∧ t.lineStart = true := by
  cases s with
  | missing => exact hregular.elim
  | token => exact hregular.elim
  | program => exact hregular.elim
  | _ => exact ⟨_, _, rfl, rfl⟩

theorem tokensAll_head {body : List Statement} {last : Token} (hregular : RegularAll body)
    (hlast : last.Ends) : ∃ next ts, tokensAll body ++ [last] = next :: ts ∧ next.Ends := by
  cases body with
  | nil => exact ⟨last, [], rfl, hlast⟩
  | cons s body =>
    obtain ⟨t, ts, htokens, hline⟩ := tokens_head hregular.1
    refine ⟨t, ts ++ (tokensAll body ++ [last]), ?_, .inr (.inl hline)⟩
    rw [tokensAll, htokens, List.append_assoc]
    rfl

mutual

/-- The tokens of a regular statement are a sentence for it, and only its first token and the `END`s
open lines. -/
theorem tokens_sentence : ∀ (s : Statement), s.Regular → s.Tidy →
    ∃ inner, Sentence s.tokens inner s ∧ ∀ t ∈ inner, t.lineStart = false
  | .assign target value, hregular, _ => by
    obtain ⟨_, hnonneg, hshort⟩ := hregular
    obtain ⟨n, rfl⟩ := Int.eq_ofNat_of_zero_le hnonneg
    have hvalue : (Token.within .number (toString (n : Int))).value = .ok n := by
      rw [toString_natCast, Nat.toString_eq_ofList_toDigits]
      exact Token.value_of_numeral hshort _ _
    refine ⟨[.within .assign ":=", .within .number (toString (n : Int))], ?_, ?_⟩
    · exact @Sentence.assign ⟨.identifier, target, ⟨1, 1⟩, true⟩ _ _ _ rfl rfl rfl hvalue
    · simp [Token.within]
  | .increment target operand, _, _ => by
    refine ⟨[.within .assign ":=", .name operand, .within .plus "+", .within .number "1"], ?_, ?_⟩
    · exact @Sentence.increment ⟨.identifier, target, ⟨1, 1⟩, true⟩ _ (.name operand) _ _ rfl rfl rfl
        rfl rfl rfl
    · simp [Token.within, Token.name]
  | .call target callee args, _, _ => by
    refine ⟨.within .assign ":=" :: .name callee :: .within .leftParen "(" :: nameTokens args,
      ?_, ?_⟩
    · exact @Sentence.call ⟨.identifier, target, ⟨1, 1⟩, true⟩ _ (.name callee) _ _ _ rfl rfl rfl rfl
        (nameTokens_nameList args)
    · simp only [List.forall_mem_cons]
      exact ⟨rfl, rfl, rfl, fun t ht => lineStart_of_mem_nameTokens ht⟩
  | .input targets, hregular, htidy =>
    ⟨itemTokens targets, .input rfl (itemTokens_itemList hregular.1 fun t ht =>
      ⟨(hregular.2 t ht).1, htidy t ht⟩), fun _ ht => lineStart_of_mem_itemTokens htidy ht⟩
  | .output items, hregular, htidy =>
    ⟨itemTokens items, .output rfl (itemTokens_itemList hregular.1 fun t ht =>
      ⟨(hregular.2 t ht).1, htidy t ht⟩) (Parser.checkNumbers_eq_ok.mpr fun t ht =>
        (hregular.2 t ht).2.2), fun _ ht => lineStart_of_mem_itemTokens htidy ht⟩
  | .loop count body, hregular, htidy => by
    obtain ⟨inner, hbody, hinner⟩ := @tokensAll_sentences body .kwEnd (.opener .kwEnd "END")
      hregular.2 htidy rfl (.inr (.inl rfl))
    refine ⟨.name count :: .within .kwDo "DO" :: inner, ?_, ?_⟩
    · exact @Sentence.loop _ (.name count) [.within .kwDo "DO"] _ _ _ rfl rfl (.present rfl) hbody
    · simp only [List.forall_mem_cons]
      exact ⟨rfl, rfl, hinner⟩
  | .define name params body, hregular, htidy => by
    obtain ⟨inner, hbody, hinner⟩ := @tokensAll_sentences body .kwEnd (.opener .kwEnd "END")
      hregular.2.2.2 htidy rfl (.inr (.inl rfl))
    refine ⟨.name name :: .within .leftParen "(" ::
      (nameTokens params ++ .within .kwDo "DO" :: inner), ?_, ?_⟩
    · have htokens : (define name params body).tokens =
          .opener .kwProgram "PROGRAM" :: .name name :: .within .leftParen "(" ::
            (nameTokens params ++ .within .kwDo "DO" ::
              (tokensAll body ++ [.opener .kwEnd "END"])) := by
        simp [tokens, lineTokens]
      rw [htokens]
      exact @Sentence.define _ (.name name) _ _ _ _ _ _ _ rfl rfl rfl (nameTokens_nameList params)
        hregular.2.2.1 rfl hbody
    · simp only [List.forall_mem_cons, List.forall_mem_append]
      exact ⟨rfl, rfl, fun t ht => lineStart_of_mem_nameTokens ht, rfl, hinner⟩
  | .missing, hregular, _ | .token _, hregular, _ | .program _, hregular, _ => hregular.elim

theorem tokensAll_sentences : ∀ (body : List Statement) {close : Kind} {last : Token},
    RegularAll body → TidyAll body → last.kind = close → last.Ends →
    ∃ inner, Sentences close (tokensAll body ++ [last]) inner body ∧
      ∀ t ∈ inner, t.lineStart = false
  | [], _, _, _, _, hkind, _ => ⟨[], .close hkind, by simp⟩
  | s :: body, close, last, hregular, htidy, hkind, hlast => by
    obtain ⟨inner, hfirst, hinner⟩ := tokens_sentence s hregular.1 htidy.1
    obtain ⟨inners, hrest, hinners⟩ :=
      tokensAll_sentences body hregular.2 htidy.2 hkind hlast
    obtain ⟨next, ts, htokens, hends⟩ := tokensAll_head hregular.2 hlast
    refine ⟨inner ++ inners, ?_, ?_⟩
    · rw [tokensAll, List.append_assoc, htokens]
      exact .cons hfirst hends (htokens ▸ hrest)
    · intro t ht
      rcases List.mem_append.mp ht with ht | ht
      · exact hinner t ht
      · exact hinners t ht

end

end Statement

end LoopLanguage
