import LoopLanguage.Proofs.Writing

/-!
What the printer writes. The source of a regular statement is, at every depth to which it is
indented, the statement in canonical spelling as it is written at that depth. Only the literals
depend on the depth: where one has a line break that is not escaped, indenting puts spaces into
it.
-/

namespace LoopLanguage

theorem Literal.return_not_mem_encode (cs : List Char) : '\r' ∉ encode cs := by
  induction cs with
  | nil => simp [encode]
  | cons c cs ih =>
    unfold encode
    cases h : escape? c with
    | some d =>
      have hd : '\r' ≠ d := by
        rintro rfl
        exact absurd (unescape?_of_escape? h) (by simp [unescape?])
      simp [hd, ih]
    | none =>
      have hc : '\r' ≠ c := by
        rintro rfl
        simp [escape?] at h
      simp [hc, ih]

namespace Text

/-- Within a line that is indented to a depth, the characters `a` become `b`. -/
structure Carries (depth : Nat) (a b : List Char) : Prop where
  noReturn : '\r' ∉ a
  carried : ∀ more, carry depth (a ++ more) = b ++ carry depth more

namespace Carries

variable {depth : Nat} {a b c d : List Char}

theorem plain (h : ∀ c ∈ a, isLineEnd c = false) : Carries depth a a where
  noReturn := fun hmem => absurd (h '\r' hmem) (by decide)
  carried := carry_plain depth h

theorem fixed {word : String} (h : word.toList.any isLineEnd = false) :
    Carries depth word.toList word.toList := by
  refine plain fun c hc => ?_
  simpa using List.any_eq_false.mp h c hc

theorem append (hab : Carries depth a b) (hcd : Carries depth c d) :
    Carries depth (a ++ c) (b ++ d) where
  noReturn := fun hmem => (List.mem_append.mp hmem).elim hab.noReturn hcd.noReturn
  carried := fun more => by
    rw [List.append_assoc, hab.carried, hcd.carried, List.append_assoc]

/-- A list with commas is carried item by item. -/
theorem commas {α : Type} {f g : α → String} {items : List α}
    (h : ∀ x ∈ items, Carries depth (f x).toList (g x).toList) :
    Carries depth (", ".intercalate (items.map f)).toList
      (", ".intercalate (items.map g)).toList := by
  induction items with
  | nil => exact plain (by simp)
  | cons x items ih =>
    have hrest := ih fun y hy => h y (by simp [hy])
    cases items with
    | nil => exact h x (by simp)
    | cons y items =>
      simp only [List.map_cons, String.intercalate_cons_cons, String.toList_append] at hrest ⊢
      exact ((h x (by simp)).append (fixed (by decide))).append hrest

end Carries

theorem Carries.literal (depth : Nat) (s : String) :
    Carries depth (Literal.quote s).toList
      (Literal.quote (String.ofList (Literal.inflate depth s.toList))).toList where
  noReturn := by
    rw [Literal.quote, String.toList_ofList]
    simp [Literal.return_not_mem_encode]
  carried := fun more => by
    simp only [Literal.quote, String.toList_ofList, List.cons_append, List.append_assoc,
      List.nil_append]
    have hquote : carry depth ('"' :: (Literal.encode s.toList ++ '"' :: more)) =
        '"' :: carry depth (Literal.encode s.toList ++ '"' :: more) := rfl
    rw [hquote, Literal.carry_encode]

/-- A text that does not start with a blank gets all the spaces. -/
theorem Carries.shift {depth : Nat} {a b : List Char} (h : Carries depth a b)
    (hopens : opensBlank a = false) : shift depth a = pad depth ++ b := by
  have hcarried := h.carried []
  rw [List.append_nil] at hcarried
  rw [Text.shift, lead, hopens, hcarried]
  exact congrArg _ (List.append_nil b)

end Text

/-- What becomes of a literal where its line is indented to a depth. -/
def Literal.inflated (depth : Nat) (s : String) : String :=
  String.ofList (inflate depth s.toList)

theorem Literal.inflated_eq_self {depth : Nat} {s : String} :
    inflated depth s = s ↔ (0 < depth → ∀ c ∈ s.toList, c.toNat ∉ lineBreaks) := by
  rw [inflated, ← String.toList_inj, String.toList_ofList]
  cases depth with
  | zero => simp [inflate_zero]
  | succ depth =>
    rw [inflate_eq_self (Nat.succ_pos depth)]
    exact ⟨fun h _ => h, fun h => h (Nat.succ_pos depth)⟩

namespace Atom.IsIdentifier

variable {a : Atom}

theorem variableSource (h : a.IsIdentifier) : a.variableSource = .ok a.lower.content := by
  obtain ⟨s, rfl⟩ := h.exists_text
  rfl

theorem programSource (h : a.IsIdentifier) : a.programSource = .ok a.upper.content := by
  obtain ⟨s, rfl⟩ := h.exists_text
  rfl

end Atom.IsIdentifier

namespace Text

theorem not_blank_of_isNameChar {c : Char} (h : Lexeme.isNameChar c = true) :
    isBlank c = false :=
  ascii_forall (P := fun c => Lexeme.isNameChar c = true → isBlank c = false) (by decide)
    (toNat_lt_of_isNameChar h) h

theorem not_lineEnd_of_isNameChar {c : Char} (h : Lexeme.isNameChar c = true) :
    isLineEnd c = false := by
  cases hend : isLineEnd c with
  | false => rfl
  | true => exact absurd (isBlank_of_isLineEnd hend) (by simp [not_blank_of_isNameChar h])

theorem Carries.name {depth : Nat} {cs : List Char} (h : Lexeme.isName cs = true) :
    Carries depth cs cs :=
  .plain fun c hc => not_lineEnd_of_isNameChar (Lexeme.isNameChar_of_isName h c hc)

theorem Carries.numeral {depth : Nat} (n : Nat) :
    Carries depth (toString n).toList (toString n).toList := by
  rw [Nat.toString_eq_ofList_toDigits, String.toList_ofList]
  refine .plain fun c hc => not_lineEnd_of_isNameChar ?_
  have hdigit := Nat.isDigit_of_mem_toDigits (by omega) (by omega) hc
  simp [Lexeme.isNameChar, Char.isAlphanum, hdigit]

end Text

namespace Token

variable {t : Token}

theorem targetSource_eq (h : t.kind ≠ .number) : t.targetSource = t.itemSource := by
  rw [targetSource, itemSource, if_neg h]

/-- An item is printed in canonical spelling. -/
theorem itemSource_eq (hkind : t.kind ∈ itemKinds) (hlexical : t.Lexical)
    (hnumber : t.kind = .number → ∃ n, t.value = .ok n) :
    t.itemSource = .ok (t.respell fun text => text).glyphs := by
  simp only [itemKinds, List.mem_cons, List.not_mem_nil, or_false] at hkind
  unfold itemSource glyphs
  rw [respell_kind]
  rcases hkind with hkind | hkind | hkind
  · obtain ⟨s, hs⟩ := hlexical.exists_text hkind
    rw [if_pos hkind, if_pos hkind, respell_string hkind hs, hs]
    rfl
  · obtain ⟨n, hn⟩ := hnumber hkind
    rw [if_neg (by simp [hkind]), if_pos hkind, if_neg (by simp [hkind]),
      respell_number hkind hn]
    refine result_bind_eq_ok.mpr ⟨n, hn, ?_⟩
    rw [Numeral.write_of_short (short_of_value hn)]
    rfl
  · rw [if_neg (by simp [hkind]), if_neg (by simp [hkind]), if_neg (by simp [hkind]),
      respell_identifier hkind]
    exact (hlexical.identifier hkind).variableSource

/-- Indenting changes an item only within a literal. -/
theorem glyphs_carries (depth : Nat) (hkind : t.kind ∈ itemKinds) (hlexical : t.Lexical)
    (hnumber : t.kind = .number → ∃ n, t.value = .ok n) :
    Text.Carries depth (t.respell fun text => text).glyphs.toList
      (t.respell (Literal.inflated depth)).glyphs.toList := by
  simp only [itemKinds, List.mem_cons, List.not_mem_nil, or_false] at hkind
  unfold glyphs
  rw [respell_kind, respell_kind]
  rcases hkind with hkind | hkind | hkind
  · obtain ⟨s, hs⟩ := hlexical.exists_text hkind
    rw [if_pos hkind, if_pos hkind, respell_string hkind hs, respell_string hkind hs]
    exact .literal depth s
  · obtain ⟨n, hn⟩ := hnumber hkind
    rw [if_neg (by simp [hkind]), if_neg (by simp [hkind]), respell_number hkind hn,
      respell_number hkind hn]
    exact .numeral n
  · rw [if_neg (by simp [hkind]), if_neg (by simp [hkind]), respell_identifier hkind,
      respell_identifier hkind]
    exact .name (hlexical.identifier hkind).lower.isName

end Token

namespace Text

theorem opensBlank_of_isName {cs : List Char} (h : Lexeme.isName cs = true) (more : List Char) :
    opensBlank (cs ++ more) = false := by
  cases cs with
  | nil => cases h
  | cons c cs =>
    have hc := Lexeme.isNameChar_of_isName h c (by simp)
    simp [opensBlank, not_blank_of_isNameChar hc, not_lineEnd_of_isNameChar hc]

end Text

namespace Statement

theorem commaList_eq {α : Type} {f : α → Except Error String} {g : α → String} {items : List α}
    (h : ∀ x ∈ items, f x = .ok (g x)) :
    commaList f items = .ok (", ".intercalate (items.map g)) := by
  have hmap : items.mapM f = .ok (items.map g) := by
    induction items with
    | nil => rfl
    | cons x items ih =>
      rw [List.mapM_cons, h x (by simp), ih fun y hy => h y (by simp [hy])]
      rfl
  rw [commaList, hmap]
  rfl

/-- Indenting changes a line only within its literals. -/
theorem line_carries {s : Statement} (hregular : s.Regular) (depth : Nat) :
    Text.Carries depth (respell (fun _ text => text) depth s).line.toList
      (respell Literal.inflated depth s).line.toList := by
  cases s with
  | assign target value =>
    obtain ⟨htarget, hnonneg, _⟩ := hregular
    obtain ⟨n, rfl⟩ := Int.eq_ofNat_of_zero_le hnonneg
    simp only [respell, line, String.toList_append, toString_natCast]
    exact ((Text.Carries.name htarget.lower.isName).append (.fixed (by decide))).append
      (.numeral n)
  | increment target operand =>
    simp only [respell, line, String.toList_append]
    exact (((Text.Carries.name hregular.1.lower.isName).append (.fixed (by decide))).append
      (.name hregular.2.lower.isName)).append (.fixed (by decide))
  | call target callee args =>
    simp only [respell, line, String.toList_append]
    refine (((((Text.Carries.name hregular.1.lower.isName).append (.fixed (by decide))).append
      (.name hregular.2.1.isName_upper)).append (.fixed (by decide))).append
        (.commas fun a ha => ?_)).append (.fixed (by decide))
    exact .name (identifiers_lower hregular.2.2 a ha).isName
  | input targets =>
    simp only [respell, line, String.toList_append, List.map_map]
    refine (Text.Carries.fixed (by decide)).append (.commas fun t ht => ?_)
    obtain ⟨hitem, hnumber⟩ := targetKinds_subset (hregular.2 t ht).1
    exact Token.glyphs_carries depth hitem (hregular.2 t ht).2 fun h => absurd h hnumber
  | output items =>
    simp only [respell, line, String.toList_append, List.map_map]
    refine (Text.Carries.fixed (by decide)).append (.commas fun t ht => ?_)
    exact Token.glyphs_carries depth (hregular.2 t ht).1 (hregular.2 t ht).2.1
      (hregular.2 t ht).2.2
  | loop count body =>
    simp only [respell, line, String.toList_append]
    exact ((Text.Carries.fixed (by decide)).append (.name hregular.1.lower.isName)).append
      (.fixed (by decide))
  | define name params body =>
    simp only [respell, line, String.toList_append]
    refine ((((Text.Carries.fixed (by decide)).append (.name hregular.1.isName_upper)).append
      (.fixed (by decide))).append (.commas fun a ha => ?_)).append (.fixed (by decide))
    exact .name (identifiers_lower hregular.2.1 a ha).isName
  | missing => exact hregular.elim
  | token => exact hregular.elim
  | program => exact hregular.elim

theorem line_opens {s : Statement} (hregular : s.Regular) (strings : Nat → String → String)
    (depth : Nat) : Text.opensBlank (respell strings depth s).line.toList = false := by
  cases s with
  | assign target value =>
    simp only [respell, line, String.toList_append, List.append_assoc]
    exact Text.opensBlank_of_isName hregular.1.lower.isName _
  | increment target operand =>
    simp only [respell, line, String.toList_append, List.append_assoc]
    exact Text.opensBlank_of_isName hregular.1.lower.isName _
  | call target callee args =>
    simp only [respell, line, String.toList_append, List.append_assoc]
    exact Text.opensBlank_of_isName hregular.1.lower.isName _
  | missing => exact hregular.elim
  | token => exact hregular.elim
  | program => exact hregular.elim
  | _ =>
    simp only [respell, line, String.toList_append, List.append_assoc]
    rfl

/-- A statement without a body is printed on one line. -/
theorem source_eq_line {s : Statement} (hregular : s.Regular)
    (hloop : ∀ count body, s ≠ .loop count body)
    (hdefine : ∀ name params body, s ≠ .define name params body) (depth : Nat) :
    s.source = .ok (respell (fun _ text => text) depth s).line := by
  have hready := checkReady_of_regular hregular
  cases s with
  | assign target value =>
    obtain ⟨htarget, _, hshort⟩ := hregular
    simp only [source, hready, htarget.variableSource, Numeral.write_of_short hshort]
    rfl
  | increment target operand =>
    simp only [source, hready, hregular.1.variableSource, hregular.2.variableSource]
    rfl
  | call target callee args =>
    obtain ⟨htarget, hcallee, hargs⟩ := hregular
    have hlist := commaList_eq fun a ha => (hargs a ha).variableSource
    simp only [source, hready, hlist, htarget.variableSource, hcallee.programSource, respell, line,
      List.map_map]
    rfl
  | input targets =>
    have hlist := @commaList_eq _ Token.targetSource
      (fun t => (t.respell fun text => text).glyphs) targets fun t ht => by
        obtain ⟨hitem, hnumber⟩ := targetKinds_subset (hregular.2 t ht).1
        rw [Token.targetSource_eq hnumber]
        exact Token.itemSource_eq hitem (hregular.2 t ht).2 fun h => absurd h hnumber
    simp only [source, hlist, respell, line, List.map_map]
    rfl
  | output items =>
    have hlist := @commaList_eq _ Token.itemSource
      (fun t => (t.respell fun text => text).glyphs) items fun t ht =>
        Token.itemSource_eq (hregular.2 t ht).1 (hregular.2 t ht).2.1 (hregular.2 t ht).2.2
    simp only [source, hlist, respell, line, List.map_map]
    rfl
  | loop count body => exact absurd rfl (hloop count body)
  | define name params body => exact absurd rfl (hdefine name params body)
  | missing => exact hregular.elim
  | token => exact hregular.elim
  | program => exact hregular.elim

theorem source_loop {count : Atom} {body : List Statement} (hregular : (loop count body).Regular)
    (depth : Nat) {texts : List String} (htexts : sources body = .ok texts) :
    (loop count body).source =
      .ok (blockSource (respell (fun _ text => text) depth (loop count body)).line texts) := by
  simp only [source, checkReady_of_regular hregular, hregular.1.variableSource, htexts]
  rfl

theorem source_define {name : Atom} {params : List Atom} {body : List Statement}
    (hregular : (define name params body).Regular) (depth : Nat) {texts : List String}
    (htexts : sources body = .ok texts) :
    (define name params body).source =
      .ok (blockSource (respell (fun _ text => text) depth (define name params body)).line
        texts) := by
  have hlist := commaList_eq fun a ha => (hregular.2.1 a ha).variableSource
  simp only [source, checkReady_of_regular hregular, hlist, hregular.1.programSource, htexts,
    respell, line, List.map_map]
  rfl

end Statement

namespace Text

theorem mem_carry {depth : Nat} {c : Char} {cs : List Char} (h : c ∈ carry depth cs) :
    c = ' ' ∨ c ∈ cs := by
  induction cs with
  | nil => cases h
  | cons d cs ih =>
    have hshift : c = d ∨ c ∈ lead depth cs ∨ c ∈ carry depth cs := by
      rw [carry] at h
      split at h <;> simp only [List.mem_cons, List.mem_append] at h
      · exact h
      · exact h.imp_right .inr
    rcases hshift with rfl | hlead | hcarry
    · exact .inr (by simp)
    · exact .inl (Literal.eq_space_of_mem_lead hlead)
    · exact (ih hcarry).imp_right fun hmem => List.mem_cons_of_mem _ hmem

theorem mem_shift {depth : Nat} {c : Char} {cs : List Char} (h : c ∈ shift depth cs) :
    c = ' ' ∨ c ∈ cs := by
  rcases List.mem_append.mp h with h | h
  · exact .inl (Literal.eq_space_of_mem_lead h)
  · exact mem_carry h

/-- Lines are indented one by one. -/
theorem shift_lines (depth : Nat) (lines : List (List Char)) :
    shift depth (['\n'].intercalate lines) = ['\n'].intercalate (lines.map (shift depth)) := by
  induction lines with
  | nil => rfl
  | cons first lines ih =>
    cases lines with
    | nil => simp
    | cons second lines =>
      rw [List.map_cons, List.map_cons, List.intercalate_cons_cons, List.intercalate_cons_cons,
        List.append_assoc, List.append_assoc, List.singleton_append, List.singleton_append,
        shift_newline, ih, List.map_cons]

theorem return_not_mem_lines {lines : List (List Char)} (h : ∀ line ∈ lines, '\r' ∉ line) :
    '\r' ∉ ['\n'].intercalate lines := by
  induction lines with
  | nil => simp
  | cons first lines ih =>
    cases lines with
    | nil => simpa using h
    | cons second lines =>
      rw [List.intercalate_cons_cons]
      simp only [List.mem_append, List.mem_singleton, not_or]
      exact ⟨⟨h first (by simp), by decide⟩, ih fun line hline => h line (by simp [hline])⟩

end Text

namespace Statement

open LoopLanguage.Text (pad shift)

variable {header : String} {texts : List String}

theorem toList_blockSource (htexts : ∀ text ∈ texts, '\r' ∉ text.toList) :
    (blockSource header texts).toList = ['\n'].intercalate
      (header.toList :: (texts.map fun text => shift 1 text.toList) ++ ["END".toList]) := by
  have hindent : (texts.map Text.indent).map String.toList =
      texts.map fun text => shift 1 text.toList := by
    rw [List.map_map]
    exact List.map_congr_left fun text htext => Text.toList_indent (htexts text htext)
  rw [blockSource, String.toList_intercalate, List.map_append, List.map_cons, hindent]
  rfl

theorem return_not_mem_blockSource (hheader : '\r' ∉ header.toList)
    (htexts : ∀ text ∈ texts, '\r' ∉ text.toList) :
    '\r' ∉ (blockSource header texts).toList := by
  rw [toList_blockSource htexts]
  refine Text.return_not_mem_lines fun line hline => ?_
  simp only [List.cons_append, List.mem_cons, List.mem_append, List.mem_map, List.not_mem_nil,
    or_false] at hline
  rcases hline with rfl | ⟨text, htext, rfl⟩ | rfl
  · exact hheader
  · intro hmem
    rcases Text.mem_shift hmem with h | h
    · cases h
    · exact htexts text htext h
  · decide

/-- A block that is indented: its header and its end move by the depth, its body by one more. -/
theorem shift_blockSource (htexts : ∀ text ∈ texts, '\r' ∉ text.toList) (depth : Nat) :
    shift depth (blockSource header texts).toList = ['\n'].intercalate
      (shift depth header.toList :: (texts.map fun text => shift (depth + 1) text.toList) ++
        [pad depth ++ "END".toList]) := by
  have hend : shift depth "END".toList = pad depth ++ "END".toList := rfl
  rw [toList_blockSource htexts, Text.shift_lines, List.map_append, List.map_cons, List.map_map,
    List.map_cons, List.map_nil, hend]
  simp only [Function.comp_def, Text.shift_shift]

theorem writeAll_append (depth : Nat) (body : List Statement) (cs : List Char) :
    writeAll depth body ++ cs = ['\n'].intercalate (body.map (write depth) ++ [cs]) := by
  induction body with
  | nil => simp [writeAll]
  | cons s body ih =>
    rw [writeAll, List.map_cons, List.cons_append, List.intercalate_cons_of_ne_nil (by simp), ← ih]
    simp

theorem writeBlock_eq (depth : Nat) (header : String) (body : List Statement) :
    writeBlock depth header (writeAll (depth + 1) body) = ['\n'].intercalate
      ((pad depth ++ header.toList) :: body.map (write (depth + 1)) ++
        [pad depth ++ "END".toList]) := by
  rw [writeBlock, writeAll_append, List.cons_append, List.intercalate_cons_of_ne_nil (by simp)]
  simp

/-- A block is indented like its header and its statements. -/
theorem shift_block {s : Statement} (hregular : s.Regular) {body : List Statement}
    (htexts : ∀ text ∈ texts, '\r' ∉ text.toList)
    (hbody : ∀ depth, (texts.map fun text => shift depth text.toList) =
      (respellAll Literal.inflated depth body).map (write depth)) (depth : Nat) :
    shift depth (blockSource (respell (fun _ text => text) depth s).line texts).toList =
      writeBlock depth (respell Literal.inflated depth s).line
        (writeAll (depth + 1) (respellAll Literal.inflated (depth + 1) body)) := by
  rw [shift_blockSource htexts, hbody,
    (line_carries hregular depth).shift (line_opens hregular _ depth), writeBlock_eq]

mutual

/-- A regular statement has a source, and indented to a depth it is the statement in canonical
spelling, written at that depth. -/
theorem source_shift : ∀ (s : Statement), s.Regular →
    ∃ text, s.source = .ok text ∧ '\r' ∉ text.toList ∧
      ∀ depth, shift depth text.toList = write depth (respell Literal.inflated depth s)
  | .loop count body, hregular => by
    obtain ⟨texts, hsources, hreturn, hshift⟩ := sources_shift body hregular.2
    refine ⟨_, source_loop hregular 0 hsources,
      return_not_mem_blockSource (line_carries hregular 0).noReturn hreturn, fun depth => ?_⟩
    exact shift_block hregular hreturn hshift depth
  | .define name params body, hregular => by
    obtain ⟨texts, hsources, hreturn, hshift⟩ := sources_shift body hregular.2.2.2
    refine ⟨_, source_define hregular 0 hsources,
      return_not_mem_blockSource (line_carries hregular 0).noReturn hreturn, fun depth => ?_⟩
    exact shift_block hregular hreturn hshift depth
  | .assign .., hregular | .increment .., hregular | .call .., hregular | .input _, hregular
  | .output _, hregular => by
    refine ⟨_, source_eq_line hregular (by simp) (by simp) 0, (line_carries hregular 0).noReturn,
      fun depth => ?_⟩
    exact (line_carries hregular depth).shift (line_opens hregular _ depth)
  | .missing, hregular | .token _, hregular | .program _, hregular => hregular.elim

theorem sources_shift : ∀ (body : List Statement), RegularAll body →
    ∃ texts, sources body = .ok texts ∧ (∀ text ∈ texts, '\r' ∉ text.toList) ∧
      ∀ depth, (texts.map fun text => shift depth text.toList) =
        (respellAll Literal.inflated depth body).map (write depth)
  | [], _ => ⟨[], rfl, by simp, fun _ => rfl⟩
  | s :: body, hregular => by
    obtain ⟨text, hsource, htext, hfirst⟩ := source_shift s hregular.1
    obtain ⟨texts, hsources, htexts, hrest⟩ := sources_shift body hregular.2
    refine ⟨text :: texts, ?_, ?_, fun depth => ?_⟩
    · rw [sources, hsource, hsources]
      rfl
    · exact List.forall_mem_cons.mpr ⟨htext, htexts⟩
    · rw [List.map_cons, respellAll, List.map_cons, hfirst, hrest]

end

/-- The source of a program: its statements in canonical spelling, on lines of their own. -/
theorem programSource_eq {body : List Statement} (hregular : RegularAll body) :
    ∃ text, programSource body = .ok text ∧ text.toList =
      ['\n'].intercalate ((respellAll Literal.inflated 0 body).map (write 0)) := by
  obtain ⟨texts, hsources, _, hshift⟩ := sources_shift body hregular
  refine ⟨"\n".intercalate texts, ?_, ?_⟩
  · rw [programSource, source, hsources]
    rfl
  · rw [String.toList_intercalate, ← hshift 0]
    simp only [Text.shift_zero]
    rfl

end Statement

namespace Text

/-- A change of letters that has nothing left to change the second time. -/
theorem twice_of_ascii {f : String → String} {g : Char → Char}
    (hf : ∀ {s : String}, (∀ c ∈ s.toList, c.toNat < 128) → (f s).toList = s.toList.map g)
    (hg : ∀ n < 128, (g (Char.ofNat n)).toNat < 128 ∧ g (g (Char.ofNat n)) = g (Char.ofNat n))
    {s : String} (h : ∀ c ∈ s.toList, c.toNat < 128) : f (f s) = f s := by
  have hletter : ∀ c ∈ s.toList, (g c).toNat < 128 ∧ g (g c) = g c := fun c hc =>
    ascii_forall (P := fun c => (g c).toNat < 128 ∧ g (g c) = g c) hg (h c hc)
  have hascii : ∀ c ∈ (f s).toList, c.toNat < 128 := by
    rw [hf h]
    intro c hc
    obtain ⟨d, hd, rfl⟩ := List.mem_map.mp hc
    exact (hletter d hd).1
  rw [← String.toList_inj, hf hascii, hf h, List.map_map]
  exact List.map_congr_left fun c hc => (hletter c hc).2

end Text

namespace Atom.IsIdentifier

variable {a b : Atom}

theorem map_of_key {f : String → String}
    (hf : ∀ {s : String}, (∀ c ∈ s.toList, c.toNat < 128) → f (f s) = f s)
    (ha : a.IsIdentifier) (hb : b.IsIdentifier) (h : b.key = (a.map f).key) :
    b.map f = a.map f := by
  have hascii := Lexeme.toNat_lt_of_isName ha.isName
  obtain ⟨s, rfl⟩ := ha.exists_text
  obtain ⟨r, rfl⟩ := hb.exists_text
  obtain rfl : r = f s := text_key_inj h
  exact congrArg Atom.text (hf hascii)

theorem lower_of_key (ha : a.IsIdentifier) (hb : b.IsIdentifier) (h : b.key = a.lower.key) :
    b.lower = a.lower :=
  map_of_key (Text.twice_of_ascii Text.toList_lower (by decide)) ha hb h

theorem upper_of_key (ha : a.IsIdentifier) (hb : b.IsIdentifier) (h : b.key = a.upper.key) :
    b.upper = a.upper :=
  map_of_key (Text.twice_of_ascii Text.toList_upper (by decide)) ha hb h

theorem map_lower_of_keys {as bs : List Atom} (has : ∀ a ∈ as, a.IsIdentifier)
    (hbs : ∀ b ∈ bs, b.IsIdentifier) (h : bs.map Atom.key = (as.map Atom.lower).map Atom.key) :
    bs.map Atom.lower = as.map Atom.lower := by
  induction bs generalizing as with
  | nil =>
    cases as with
    | nil => rfl
    | cons a as => cases h
  | cons b bs ih =>
    cases as with
    | nil => cases h
    | cons a as =>
      simp only [List.map_cons, List.cons.injEq] at h ⊢
      exact ⟨lower_of_key (has a (by simp)) (hbs b (by simp)) h.1,
        ih (fun c hc => has c (by simp [hc])) (fun c hc => hbs c (by simp [hc])) h.2⟩

end Atom.IsIdentifier

/-- An item that is the same as another one in canonical spelling is printed like it. -/
theorem Token.glyphs_of_same {f : String → String} {t u : Token} (hkind : t.kind ∈ itemKinds)
    (ht : t.Lexical) (hu : u.Lexical) (hnumber : t.kind = .number → ∃ n, t.value = .ok n)
    (h : u.same (t.respell fun text => text) = true) :
    (u.respell f).glyphs = (t.respell f).glyphs := by
  simp only [Token.same, Bool.and_eq_true, decide_eq_true_eq] at h
  obtain ⟨hsame, hkey⟩ := h
  rw [respell_kind] at hsame
  have htext : (u.respell f).text = (t.respell f).text := by
    simp only [itemKinds, List.mem_cons, List.not_mem_nil, or_false] at hkind
    rcases hkind with hkind | hkind | hkind
    · obtain ⟨s, hs⟩ := ht.exists_text hkind
      obtain ⟨r, hr⟩ := hu.exists_text (hsame.trans hkind)
      rw [respell_string hkind hs, hr] at hkey
      rw [respell_string hkind hs, respell_string (hsame.trans hkind) hr, Atom.text_key_inj hkey]
    · obtain ⟨n, hn⟩ := hnumber hkind
      obtain ⟨r, hr, _⟩ := hu.exists_numeral (hsame.trans hkind)
      rw [respell_number hkind hn, hr] at hkey
      have hvalue : u.value = .ok n := by
        obtain ⟨kind, text, place, lineStart⟩ := u
        obtain rfl : kind = .number := hsame.trans hkind
        obtain rfl : text = .text r := hr
        rw [Atom.text_key_inj hkey, Nat.toString_eq_ofList_toDigits]
        exact value_of_numeral (short_of_value hn) _ _
      rw [respell_number hkind hn, respell_number (hsame.trans hkind) hvalue]
    · rw [respell_identifier hkind] at hkey
      rw [respell_identifier hkind, respell_identifier (hsame.trans hkind)]
      exact (ht.identifier hkind).lower_of_key (hu.identifier (hsame.trans hkind)) hkey
  rw [glyphs, glyphs, respell_kind, respell_kind, hsame, htext]

theorem Token.map_glyphs_of_same {f : String → String} {ts us : List Token}
    (hts : ∀ t ∈ ts, t.kind ∈ itemKinds ∧ t.Lexical ∧ (t.kind = .number → ∃ n, t.value = .ok n))
    (hus : ∀ u ∈ us, u.Lexical)
    (h : Statement.sameTokens us (ts.map (respell fun text => text)) = true) :
    (us.map (respell f)).map glyphs = (ts.map (respell f)).map glyphs := by
  induction us generalizing ts with
  | nil =>
    cases ts with
    | nil => rfl
    | cons t ts => cases h
  | cons u us ih =>
    cases ts with
    | nil => cases h
    | cons t ts =>
      simp only [List.map_cons, Statement.sameTokens, Bool.and_eq_true] at h ⊢
      obtain ⟨hkind, hlexical, hnumber⟩ := hts t (by simp)
      rw [glyphs_of_same hkind hlexical (hus u (by simp)) hnumber h.1,
        ih (fun v hv => hts v (by simp [hv])) (fun v hv => hus v (by simp [hv])) h.2]

namespace Statement

variable {strings : Nat → String → String}

theorem line_of_same {s s' : Statement} (hs : s.Regular) (hs' : s'.Regular) {level : Nat}
    (depth : Nat) (h : same s' (respell (fun _ text => text) level s) = true) :
    (respell strings depth s').line = (respell strings depth s).line := by
  cases s with
  | assign target value =>
    cases s' with
    | assign target' value' =>
      simp only [respell, same, Bool.and_eq_true, decide_eq_true_eq] at h
      rw [respell, respell, hs.1.lower_of_key hs'.1 h.1, h.2]
    | _ => simp [respell, same] at h
  | increment target operand =>
    cases s' with
    | increment target' operand' =>
      simp only [respell, same, Bool.and_eq_true, decide_eq_true_eq] at h
      rw [respell, respell, hs.1.lower_of_key hs'.1 h.1, hs.2.lower_of_key hs'.2 h.2]
    | _ => simp [respell, same] at h
  | call target callee args =>
    cases s' with
    | call target' callee' args' =>
      simp only [respell, same, Bool.and_eq_true, decide_eq_true_eq] at h
      rw [respell, respell, hs.1.lower_of_key hs'.1 h.1.1, hs.2.1.upper_of_key hs'.2.1 h.1.2,
        Atom.IsIdentifier.map_lower_of_keys hs.2.2 hs'.2.2 h.2]
    | _ => simp [respell, same] at h
  | input targets =>
    cases s' with
    | input targets' =>
      have hglyphs := @Token.map_glyphs_of_same (strings depth) targets targets' (fun t ht => by
        obtain ⟨hitem, hnumber⟩ := targetKinds_subset (hs.2 t ht).1
        exact ⟨hitem, (hs.2 t ht).2, fun hkind => absurd hkind hnumber⟩)
        (fun u hu => (hs'.2 u hu).2) h
      rw [respell, respell, line, line, hglyphs]
    | _ => simp [respell, same] at h
  | output items =>
    cases s' with
    | output items' =>
      have hglyphs := @Token.map_glyphs_of_same (strings depth) items items' hs.2
        (fun u hu => (hs'.2 u hu).2.1) h
      rw [respell, respell, line, line, hglyphs]
    | _ => simp [respell, same] at h
  | loop count body =>
    cases s' with
    | loop count' body' =>
      simp only [respell, same, Bool.and_eq_true, decide_eq_true_eq] at h
      rw [respell, respell, line, line, hs.1.lower_of_key hs'.1 h.1]
    | _ => simp [respell, same] at h
  | define name params body =>
    cases s' with
    | define name' params' body' =>
      simp only [respell, same, Bool.and_eq_true, decide_eq_true_eq] at h
      rw [respell, respell, line, line, hs.1.upper_of_key hs'.1 h.1.1,
        Atom.IsIdentifier.map_lower_of_keys hs.2.1 hs'.2.1 h.1.2]
    | _ => simp [respell, same] at h
  | missing => exact hs.elim
  | token => exact hs.elim
  | program => exact hs.elim

mutual

/-- A statement that is the same as another one in canonical spelling is printed like it. -/
theorem write_of_same : ∀ (s s' : Statement) {level : Nat} (depth : Nat), s.Regular → s'.Regular →
    same s' (respell (fun _ text => text) level s) = true →
    write depth (respell strings depth s') = write depth (respell strings depth s)
  | .loop count body, s', level, depth, hs, hs', h => by
    have hline := @line_of_same strings _ _ hs hs' level depth h
    cases s' with
    | loop count' body' =>
      simp only [respell, same, Bool.and_eq_true] at h hline ⊢
      rw [write, write, writeBlock_eq, writeBlock_eq, hline,
        writeAll_of_same body body' (depth + 1) hs.2 hs'.2 h.2]
    | _ => simp [respell, same] at h
  | .define name params body, s', level, depth, hs, hs', h => by
    have hline := @line_of_same strings _ _ hs hs' level depth h
    cases s' with
    | define name' params' body' =>
      simp only [respell, same, Bool.and_eq_true] at h hline ⊢
      rw [write, write, writeBlock_eq, writeBlock_eq, hline,
        writeAll_of_same body body' (depth + 1) hs.2.2.2 hs'.2.2.2 h.2]
    | _ => simp [respell, same] at h
  | .assign .., s', level, depth, hs, hs', h | .increment .., s', level, depth, hs, hs', h
  | .call .., s', level, depth, hs, hs', h | .input _, s', level, depth, hs, hs', h
  | .output _, s', level, depth, hs, hs', h => by
    have hline := @line_of_same strings _ _ hs hs' level depth h
    cases s' <;> first
      | exact congrArg (fun line : String => Text.pad depth ++ line.toList) hline
      | simp [respell, same] at h
  | .missing, _, _, _, hs, _, _ | .token _, _, _, _, hs, _, _ | .program _, _, _, _, hs, _, _ =>
    hs.elim

theorem writeAll_of_same : ∀ (body body' : List Statement) {level : Nat} (depth : Nat),
    RegularAll body → RegularAll body' →
    sameBody body' (respellAll (fun _ text => text) level body) = true →
    (respellAll strings depth body').map (write depth) =
      (respellAll strings depth body).map (write depth)
  | [], body', _, depth, _, _, h => by
    cases body' with
    | nil => rfl
    | cons => simp [respellAll, sameBody] at h
  | s :: body, body', _, depth, hs, hs', h => by
    cases body' with
    | nil => simp [respellAll, sameBody] at h
    | cons s' body' =>
      simp only [respellAll, sameBody, Bool.and_eq_true] at h
      rw [respellAll, respellAll, List.map_cons, List.map_cons,
        write_of_same s s' depth hs.1 hs'.1 h.1, writeAll_of_same body body' depth hs.2 hs'.2 h.2]

end

/-- A program that is the same as another one in canonical spelling has the same source. -/
theorem programSource_of_same {body body' : List Statement} (hbody : RegularAll body)
    (hbody' : RegularAll body') (h : sameBody body' (canonical body) = true) :
    programSource body' = programSource body := by
  obtain ⟨text, hsource, htext⟩ := programSource_eq hbody
  obtain ⟨text', hsource', htext'⟩ := programSource_eq hbody'
  rw [writeAll_of_same body body' 0 hbody hbody' h, ← htext] at htext'
  rw [hsource, hsource', String.toList_inj.mp htext']

end Statement

end LoopLanguage
