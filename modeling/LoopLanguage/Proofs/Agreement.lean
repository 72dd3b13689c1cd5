import LoopLanguage.Proofs.Documents
import LoopLanguage.Proofs.PhraseErrors
import LoopLanguage.Proofs.RoundTrip

/-!
Three ways to take in a program: its source by descent, its source by the grammar, and its document.
Each of them checks for itself, and at a time of its own, that a program is defined once, before it
is called and with as many parameters as the call has arguments. The main statement is about
programs in the spelling in which they are printed: whatever their calls and definitions are, all
three take the program in, with the same statements and programs, or all three refuse it.
-/

namespace LoopLanguage

open LoopLanguage.Action (Ensures)
open Statement (placelessAll)

/-! ### Programs in the spelling in which they are printed -/

namespace Text

theorem digitChar_of_isDigit {c : Char} (h : c.isDigit = true) :
    c.toNat - '0'.toNat < 10 ∧ (c.toNat - '0'.toNat).digitChar = c := by
  have hrange := Char.isDigit_iff_toNat.mp h
  have hzero : '0'.toNat = 48 := rfl
  have hnine : '9'.toNat = 57 := rfl
  have hlt : c.toNat - '0'.toNat < 10 := by omega
  refine ⟨hlt, Char.toNat_inj.mp ?_⟩
  rw [Nat.toNat_digitChar_of_lt_ten hlt]
  omega

/-- Digits behind a number that is not zero are the last digits of the number they make. -/
theorem toDigits_ofDigitChars {cs : List Char} {n : Nat} (h : ∀ c ∈ cs, c.isDigit = true)
    (hn : 0 < n) : Nat.toDigits 10 (Nat.ofDigitChars 10 cs n) = Nat.toDigits 10 n ++ cs := by
  induction cs generalizing n with
  | nil => simp
  | cons c cs ih =>
    obtain ⟨hlt, hdigit⟩ := digitChar_of_isDigit (h c (by simp))
    rw [Nat.ofDigitChars_cons, ih (fun d hd => h d (by simp [hd])) (by omega),
      ← Nat.toDigits_append_toDigits (by omega) hn hlt, Nat.toDigits_of_lt_base hlt, hdigit,
      List.append_assoc]
    rfl

/-- Without a zero in front, the digits of a number are those that it is read from. -/
theorem toDigits_ofDigits {cs : List Char} (h : Lexeme.isNumeral cs = true)
    (hzero : cs.head? = some '0' → cs = ['0']) : Nat.toDigits 10 (ofDigits cs) = cs := by
  simp only [Lexeme.isNumeral, Bool.and_eq_true, List.all_eq_true] at h
  obtain ⟨hne, hdigits⟩ := h
  rw [ofDigits_eq_ofDigitChars hdigits]
  cases cs with
  | nil => cases hne
  | cons c cs =>
    by_cases hc : c = '0'
    · rw [hzero (by simp [hc])]
      rfl
    · obtain ⟨hlt, hdigit⟩ := digitChar_of_isDigit (hdigits c (by simp))
      have hpos : 0 < c.toNat - '0'.toNat := by
        refine Nat.pos_of_ne_zero fun hvalue => hc ?_
        rw [← hdigit, hvalue]
        rfl
      rw [Nat.ofDigitChars_cons, Nat.mul_zero, Nat.zero_add,
        toDigits_ofDigitChars (fun d hd => hdigits d (by simp [hd])) hpos,
        Nat.toDigits_of_lt_base hlt, hdigit]
      rfl

end Text

namespace Atom

/-- A name in small letters. -/
def IsVariable (a : Atom) : Prop := a.IsIdentifier ∧ a.lower = a

/-- A name in capitals. -/
def IsProgram (a : Atom) : Prop := a.IsIdentifier ∧ a.upper = a

/-- A number that can be read and has no zeros in front. -/
def IsDecimal : Atom → Prop
  | .text s => Lexeme.isNumeral s.toList = true ∧ s.toList.length ≤ Text.maxDigits ∧
      (s.toList.head? = some '0' → s = "0")
  | _ => False

end Atom

/-- An item is spelled as it is printed. -/
def Token.Conventional (t : Token) : Prop :=
  match t.kind with
  | .string => t.text.IsText
  | .number => t.text.IsDecimal
  | .identifier => t.text.IsVariable
  | _ => False

namespace Statement

mutual

/-- The statement is spelled as it is printed; which programs are defined and called is left
open. -/
def Conventional : Statement → Prop
  | assign target value => target.IsVariable ∧ 0 ≤ value ∧ Numeral.Short value
  | increment target operand => target.IsVariable ∧ operand.IsVariable
  | call target callee args =>
    target.IsVariable ∧ callee.IsProgram ∧ ∀ arg ∈ args, arg.IsVariable
  | input targets => targets ≠ [] ∧ ∀ t ∈ targets, t.kind ∈ targetKinds ∧ t.Conventional
  | output items => items ≠ [] ∧ ∀ t ∈ items, t.kind ∈ itemKinds ∧ t.Conventional
  | loop count body => count.IsVariable ∧ ConventionalAll body
  | define name params body =>
    name.IsProgram ∧ (∀ param ∈ params, param.IsVariable) ∧ params.Nodup ∧ ConventionalAll body
  | _ => False

def ConventionalAll : List Statement → Prop
  | [] => True
  | s :: rest => Conventional s ∧ ConventionalAll rest

end

end Statement

theorem Atom.map_lower_eq_self {names : List Atom} (h : ∀ name ∈ names, name.IsVariable) :
    names.map Atom.lower = names :=
  (List.map_congr_left fun name hname => (h name hname).2).trans names.map_id

/-- A number that is spelled as it is printed has a value and is that value written down. -/
theorem Atom.IsDecimal.value {t : Token} (h : t.text.IsDecimal) (hkind : t.kind = .number) :
    ∃ n, t.value = .ok n ∧ t.text = .text (toString n) := by
  cases htext : t.text with
  | text s =>
    rw [htext] at h
    obtain ⟨hnumeral, hlength, hzero⟩ := h
    have hread : Numeral.read s.toList = .ok (Text.ofDigits s.toList) := if_neg (by omega)
    have hvalue : t.value = .ok (Text.ofDigits s.toList) := by
      simp [Token.value, hkind, htext, Text.isDecimal_of_isNumeral hnumeral, hread]
    refine ⟨_, hvalue, ?_⟩
    rw [Nat.toString_eq_ofList_toDigits, Text.toDigits_ofDigits hnumeral fun hhead => by
      rw [hzero hhead]; rfl, String.ofList_toList]
  | absent => simp [htext, Atom.IsDecimal] at h
  | other => simp [htext, Atom.IsDecimal] at h

namespace Token.Conventional

variable {t : Token}

theorem lexical (h : t.Conventional) : t.Lexical := by
  unfold Token.Conventional at h
  unfold Token.Lexical
  split at h
  · next hkind => simpa [hkind] using h
  · next hkind =>
    obtain ⟨n, _, htext⟩ := h.value hkind
    simp only [hkind, htext]
    simpa [Atom.IsNumeral, Nat.toString_eq_ofList_toDigits] using Text.isNumeral_toDigits n
  · next hkind => simpa [hkind] using h.1
  · exact h.elim

theorem value (h : t.Conventional) (hkind : t.kind = .number) :
    ∃ n, t.value = .ok n ∧ t.text = .text (toString n) := by
  have hdecimal : t.text.IsDecimal := by simpa [Token.Conventional, hkind] using h
  exact hdecimal.value hkind

/-- Spelling it canonically changes nothing but its place. -/
theorem respell_placeless (h : t.Conventional) {string : String → String}
    (hstring : t.kind = .string → string t.text.content = t.text.content) :
    (t.respell string).placeless = t.placeless := by
  have htext : (t.respell string).text = t.text := by
    unfold Token.Conventional at h
    split at h
    · next hkind =>
      obtain ⟨s, hs⟩ := lexical (by simpa [Token.Conventional, hkind]) |>.exists_text hkind
      have hsame : string s = s := by simpa [hs, Atom.content] using hstring hkind
      rw [Token.respell_string hkind hs, hsame, hs]
    · next hkind =>
      obtain ⟨n, hvalue, htext⟩ := h.value hkind
      rw [Token.respell_number hkind hvalue, htext]
    · next hkind =>
      rw [Token.respell_identifier hkind]
      exact h.2
    · exact h.elim
  rw [Token.placeless, Token.respell_kind, htext]
  rfl

end Token.Conventional

namespace Statement

mutual

/-- What is spelled as it is printed could come from a source and stays a program when it is
printed. -/
theorem Conventional.regular : ∀ {s : Statement}, s.Conventional → s.Regular ∧ s.Printable
  | .assign .., ⟨htarget, hvalue⟩ => ⟨⟨htarget.1, hvalue⟩, trivial⟩
  | .increment .., ⟨htarget, hoperand⟩ => ⟨⟨htarget.1, hoperand.1⟩, trivial⟩
  | .call _ callee _, ⟨htarget, hcallee, hargs⟩ => by
    have hupper : callee.upper.IsIdentifier := by
      rw [hcallee.2]
      exact hcallee.1
    exact ⟨⟨htarget.1, hcallee.1, fun arg harg => (hargs arg harg).1⟩, hupper⟩
  | .input _, ⟨hne, htargets⟩ =>
    ⟨⟨hne, fun t ht => ⟨(htargets t ht).1, (htargets t ht).2.lexical⟩⟩, trivial⟩
  | .output _, ⟨hne, hitems⟩ => by
    refine ⟨⟨hne, fun t ht => ⟨(hitems t ht).1, (hitems t ht).2.lexical, fun hkind => ?_⟩⟩, trivial⟩
    obtain ⟨n, hvalue, _⟩ := (hitems t ht).2.value hkind
    exact ⟨n, hvalue⟩
  | .loop .., ⟨hcount, hbody⟩ =>
    ⟨⟨hcount.1, (ConventionalAll.regular hbody).1⟩, (ConventionalAll.regular hbody).2⟩
  | .define name params _, ⟨hname, hparams, hnodup, hbody⟩ => by
    obtain ⟨hregular, hprintable⟩ := ConventionalAll.regular hbody
    have hupper : name.upper.IsIdentifier := by
      rw [hname.2]
      exact hname.1
    have hlower : (params.map Atom.lower).Nodup := by
      rwa [Atom.map_lower_eq_self hparams]
    exact ⟨⟨hname.1, fun param hparam => (hparams param hparam).1, hnodup, hregular⟩,
      hupper, hlower, hprintable⟩
  | .missing, h | .token _, h | .program _, h => h.elim

theorem ConventionalAll.regular : ∀ {body : List Statement}, ConventionalAll body →
    RegularAll body ∧ PrintableAll body
  | [], _ => ⟨trivial, trivial⟩
  | _ :: _, ⟨hfirst, hrest⟩ =>
    ⟨⟨(Conventional.regular hfirst).1, (ConventionalAll.regular hrest).1⟩,
      (Conventional.regular hfirst).2, (ConventionalAll.regular hrest).2⟩

end

theorem map_respell_placeless {tokens : List Token} {string : String → String}
    (h : ∀ t ∈ tokens, t.Conventional)
    (hstring : ∀ t ∈ tokens, t.kind = .string → string t.text.content = t.text.content) :
    (tokens.map (Token.respell string)).map Token.placeless = tokens.map Token.placeless := by
  rw [List.map_map]
  exact List.map_congr_left fun t ht => (h t ht).respell_placeless (hstring t ht)

mutual

/-- Where the literals stay as they are, the canonical spelling is the one that is there. -/
theorem Conventional.respell_placeless {strings : Nat → String → String} :
    ∀ {s : Statement} {depth : Nat}, s.Conventional →
      Literals (fun depth text => strings depth text = text) depth s →
      (respell strings depth s).placeless = s.placeless
  | .assign .., _, ⟨htarget, _⟩, _ => by rw [respell, htarget.2]
  | .increment .., _, ⟨htarget, hoperand⟩, _ => by rw [respell, htarget.2, hoperand.2]
  | .call .., _, ⟨htarget, hcallee, hargs⟩, _ => by
    rw [respell, htarget.2, hcallee.2, Atom.map_lower_eq_self hargs]
  | .input _, _, ⟨_, htargets⟩, hliterals =>
    congrArg input (map_respell_placeless (fun t ht => (htargets t ht).2) hliterals)
  | .output _, _, ⟨_, hitems⟩, hliterals =>
    congrArg output (map_respell_placeless (fun t ht => (hitems t ht).2) hliterals)
  | .loop .., _, ⟨hcount, hbody⟩, hliterals => by
    rw [respell, placeless, placeless, hcount.2,
      ConventionalAll.respell_placeless hbody hliterals]
  | .define .., _, ⟨hname, hparams, _, hbody⟩, hliterals => by
    rw [respell, placeless, placeless, hname.2, Atom.map_lower_eq_self hparams,
      ConventionalAll.respell_placeless hbody hliterals]
  | .missing, _, h, _ | .token _, _, h, _ | .program _, _, h, _ => h.elim

theorem ConventionalAll.respell_placeless {strings : Nat → String → String} :
    ∀ {body : List Statement} {depth : Nat}, ConventionalAll body →
      LiteralsAll (fun depth text => strings depth text = text) depth body →
      placelessAll (respellAll strings depth body) = placelessAll body
  | [], _, _, _ => rfl
  | _ :: _, _, ⟨hfirst, hrest⟩, ⟨hliteral, hliterals⟩ => by
    rw [respellAll, placelessAll, placelessAll, Conventional.respell_placeless hfirst hliteral,
      ConventionalAll.respell_placeless hrest hliterals]

end

end Statement

/-! ### Statements that are the same -/

theorem Atom.ofJson_key {a : Atom} (h : a.IsText) : ofJson a.key = a := by
  cases a with
  | text s => rw [key_text, ofJson]
  | absent => exact h.elim
  | other => exact h.elim

theorem Atom.IsIdentifier.eq_of_keys {as bs : List Atom} (has : ∀ a ∈ as, a.IsIdentifier)
    (hbs : ∀ b ∈ bs, b.IsIdentifier) (h : as.map Atom.key = bs.map Atom.key) : as = bs := by
  have hread : ∀ {names : List Atom}, (∀ a ∈ names, a.IsIdentifier) →
      (names.map Atom.key).map Atom.ofJson = names := by
    intro names hnames
    rw [List.map_map]
    exact (List.map_congr_left fun a ha => Atom.ofJson_key (hnames a ha).isText).trans names.map_id
  rw [← hread has, h, hread hbs]

theorem Token.placeless_of_same {t u : Token} (ht : t.text.IsText) (hu : u.text.IsText)
    (h : t.same u = true) : t.placeless = u.placeless := by
  simp only [Token.same, Bool.and_eq_true, decide_eq_true_eq] at h
  have htext : t.text = u.text := by
    rw [← Atom.ofJson_key ht, h.2, Atom.ofJson_key hu]
  rw [Token.placeless, Token.placeless, h.1, htext]

namespace Statement

theorem map_placeless_of_same {ts us : List Token} (hts : ∀ t ∈ ts, t.text.IsText)
    (hus : ∀ u ∈ us, u.text.IsText) (h : sameTokens ts us = true) :
    ts.map Token.placeless = us.map Token.placeless := by
  induction ts generalizing us with
  | nil =>
    cases us with
    | nil => rfl
    | cons u us => cases h
  | cons t ts ih =>
    cases us with
    | nil => cases h
    | cons u us =>
      simp only [sameTokens, Bool.and_eq_true] at h
      rw [List.map_cons, List.map_cons,
        Token.placeless_of_same (hts t (by simp)) (hus u (by simp)) h.1,
        ih (fun v hv => hts v (by simp [hv])) (fun v hv => hus v (by simp [hv])) h.2]

mutual

/-- Statements that could come from a source and are the same differ in places only. -/
theorem placeless_of_same : ∀ (s s' : Statement), s.Regular → s'.Regular → same s s' = true →
    s.placeless = s'.placeless
  | .assign .., s', hs, hs', h => by
    cases s' with
    | assign =>
      simp only [same, Bool.and_eq_true, decide_eq_true_eq] at h
      rw [hs.1.key_inj hs'.1 h.1, h.2]
    | _ => simp [same] at h
  | .increment .., s', hs, hs', h => by
    cases s' with
    | increment =>
      simp only [same, Bool.and_eq_true, decide_eq_true_eq] at h
      rw [hs.1.key_inj hs'.1 h.1, hs.2.key_inj hs'.2 h.2]
    | _ => simp [same] at h
  | .call .., s', hs, hs', h => by
    cases s' with
    | call =>
      simp only [same, Bool.and_eq_true, decide_eq_true_eq] at h
      rw [hs.1.key_inj hs'.1 h.1.1, hs.2.1.key_inj hs'.2.1 h.1.2,
        Atom.IsIdentifier.eq_of_keys hs.2.2 hs'.2.2 h.2]
    | _ => simp [same] at h
  | .input _, s', hs, hs', h => by
    cases s' with
    | input => exact congrArg input (map_placeless_of_same hs.targets_text hs'.targets_text h)
    | _ => simp [same] at h
  | .output _, s', hs, hs', h => by
    cases s' with
    | output => exact congrArg output (map_placeless_of_same hs.items_text hs'.items_text h)
    | _ => simp [same] at h
  | .loop _ body, s', hs, hs', h => by
    cases s' with
    | loop _ body' =>
      simp only [same, Bool.and_eq_true, decide_eq_true_eq] at h
      rw [placeless, placeless, hs.1.key_inj hs'.1 h.1,
        placelessAll_of_same body body' hs.2 hs'.2 h.2]
    | _ => simp [same] at h
  | .define _ _ body, s', hs, hs', h => by
    cases s' with
    | define _ _ body' =>
      simp only [same, Bool.and_eq_true, decide_eq_true_eq] at h
      rw [placeless, placeless, hs.1.key_inj hs'.1 h.1.1,
        Atom.IsIdentifier.eq_of_keys hs.2.1 hs'.2.1 h.1.2,
        placelessAll_of_same body body' hs.2.2.2 hs'.2.2.2 h.2]
    | _ => simp [same] at h
  | .missing, _, hs, _, _ | .token _, _, hs, _, _ | .program _, _, hs, _, _ => hs.elim

theorem placelessAll_of_same : ∀ (body body' : List Statement), RegularAll body →
    RegularAll body' → sameBody body body' = true → placelessAll body = placelessAll body'
  | [], body', _, _, h => by
    cases body' with
    | nil => rfl
    | cons => simp [sameBody] at h
  | s :: body, body', hs, hs', h => by
    cases body' with
    | nil => simp [sameBody] at h
    | cons s' body' =>
      simp only [sameBody, Bool.and_eq_true] at h
      rw [placelessAll, placelessAll, placeless_of_same s s' hs.1 hs'.1 h.1,
        placelessAll_of_same body body' hs.2 hs'.2 h.2]

end

end Statement

/-! ### Well formed sources that are refused -/

theorem NameList.ne_number {ts : List Token} {names : List Atom} (h : NameList ts names) :
    ∀ t ∈ ts, t.kind ≠ .number := by
  intro t ht hkind
  have hmem := h.kind_mem t ht
  simp [hkind] at hmem

/-- The numbers among the tokens of a list are items of it. -/
theorem ItemList.item_of_number {kinds : List Kind} {ts items : List Token}
    (h : ItemList kinds ts items) {t : Token} (ht : t ∈ ts) (hkind : t.kind = .number) :
    t ∈ items ∧ .number ∈ kinds := by
  obtain hcomma | ⟨hitem, hmem⟩ := h.comma_or_item t ht
  · simp [hkind] at hcomma
  · exact ⟨hitem, hkind ▸ hmem⟩

theorem MaybeDo.ne_number {ts : List Token} (h : MaybeDo ts) : ∀ t ∈ ts, t.kind ≠ .number := by
  cases h with
  | absent => simp
  | present hword => simp [hword]

/-- Every number among the tokens can be read. -/
def Countable (ts : List Token) : Prop := ∀ t ∈ ts, t.kind = .number → ∃ n, t.value = .ok n

namespace Countable

variable {t : Token} {ts us : List Token}

theorem of_ne (h : ∀ t ∈ ts, t.kind ≠ .number) : Countable ts :=
  fun t ht hkind => absurd hkind (h t ht)

theorem append (h : Countable ts) (h' : Countable us) : Countable (ts ++ us) :=
  fun t ht => (List.mem_append.mp ht).elim (h t) (h' t)

theorem cons (ht : t.kind ≠ .number) (h : Countable ts) : Countable (t :: ts) := by
  have hone : Countable [t] := of_ne (by simpa using ht)
  exact hone.append h

end Countable

mutual

theorem Sentence.countable : ∀ {ts inner : List Token} {s : Statement}, Sentence ts inner s →
    Countable ts
  | _, _, _, .assign htarget hsign _ hvalue => by
    refine .cons (by simp [htarget]) (.cons (by simp [hsign]) fun t ht _ => ?_)
    obtain rfl := List.mem_singleton.mp ht
    exact ⟨_, hvalue⟩
  | _, _, _, .increment htarget hsign hoperand hplus _ hvalue => by
    refine .cons (by simp [htarget]) (.cons (by simp [hsign]) (.cons (by simp [hoperand])
      (.cons (by simp [hplus]) fun t ht _ => ?_)))
    obtain rfl := List.mem_singleton.mp ht
    exact ⟨_, hvalue⟩
  | _, _, _, .call htarget hsign hcallee hleft hargs =>
    .cons (by simp [htarget]) (.cons (by simp [hsign]) (.cons (by simp [hcallee])
      (.cons (by simp [hleft]) (.of_ne hargs.ne_number))))
  | _, _, _, .input hword htargets => by
    refine .cons (by simp [hword]) fun t ht hkind => ?_
    have hmem := (htargets.item_of_number ht hkind).2
    simp [targetKinds] at hmem
  | _, _, _, .output hword hitems hnumbers => by
    refine .cons (by simp [hword]) fun t ht hkind => ?_
    exact Parser.checkNumbers_eq_ok.mp hnumbers t (hitems.item_of_number ht hkind).1 hkind
  | _, _, _, .loop hword hcount hopening hbody =>
    .cons (by simp [hword]) (.cons (by simp [hcount])
      (.append (.of_ne hopening.ne_number) (hbody.countable (by simp))))
  | _, _, _, .define hword hname hleft hparams _ hopening hbody => by
    refine .cons (by simp [hword]) (.cons (by simp [hname]) (.cons (by simp [hleft])
      (.append (.of_ne hparams.ne_number) (.cons ?_ (hbody.countable (by simp))))))
    simp [hopening]

/-- Sentences have no number that cannot be read. -/
theorem Sentences.countable : ∀ {close : Kind} {ts inner : List Token} {body : List Statement},
    Sentences close ts inner body → close ≠ .number → Countable ts
  | _, _, _, _, .close h, hclose => .cons (h ▸ hclose) (.of_ne (by simp))
  | _, _, _, _, .semicolon h rest, hclose => .cons (by simp [h]) (rest.countable hclose)
  | _, _, _, _, .cons first _ rest, hclose => first.countable.append (rest.countable hclose)

end

/-- The action fails, and with an error of parsing. -/
def Action.Refuses {σ α : Type} (act : Action σ α) (s : σ) : Prop :=
  ∃ e t, act s = (.error e, t) ∧ e.category = .parsing

/-- Sentences that cannot be enrolled are refused by descent. -/
theorem parseByDescent_refuses {source : String} {registry : Registry} {inner : List Token}
    {body : List Statement} (hfault : (Lexer.ofSource source false).tokens.2.1 = none)
    (hsentences : Sentences .eof (Lexer.ofSource source false).tokens.1 inner body)
    (henroll : Statement.enrollAll body registry = none) :
    (parseByDescent source).Refuses registry := by
  cases hrun : parseByDescent source registry with
  | mk result after =>
    cases result with
    | ok found =>
      obtain ⟨_, ⟨other, hother⟩, hfound⟩ := parseByDescent_eq_ok.mp hrun
      obtain rfl := hother.unique_program hsentences
      rw [henroll] at hfound
      cases hfound
    | error e =>
      refine ⟨e, after, hrun, ?_⟩
      rcases parseByDescent_error hrun with hparsing | hlexical | ⟨t, ht, hkind, hvalue⟩
      · exact hparsing
      · rw [hfault] at hlexical
        cases hlexical
      · obtain ⟨n, hn⟩ := hsentences.countable (by simp) t ht hkind
        rw [hvalue] at hn
        cases hn

/-- Sentences that cannot be enrolled are refused by the grammar. -/
theorem parseByGrammar_refuses {source : String} {registry : Registry} {inner : List Token}
    {body : List Statement} (hfault : (Lexer.ofSource source false).tokens.2.1 = none)
    (hsentences : Sentences .eof (Lexer.ofSource source false).tokens.1 inner body)
    (hinner : ∀ t ∈ inner, t.lineStart = false)
    (henroll : Statement.enrollAll body registry = none) :
    (parseByGrammar source).Refuses registry := by
  cases hrun : parseByGrammar source registry with
  | mk result after =>
    cases result with
    | ok found =>
      obtain ⟨⟨other, hother, _⟩, hfound⟩ := (parseByGrammar_eq_ok hfault).mp hrun
      obtain rfl := hother.unique_program hsentences
      rw [henroll] at hfound
      cases hfound
    | error e =>
      refine ⟨e, after, hrun, ?_⟩
      -- The pieces are the tokens up to line breaks, so their numbers can be read as well.
      obtain ⟨pieces, finish, hpieces, _, hsound, hlines⟩ :=
        Lexer.flat_of_no_fault rfl rfl hfault (Nat.lt_succ_self _)
      have hfeed : (Grammar.Feed.ofSource source).pieces = pieces := congrArg Prod.fst hpieces
      have hnone : (Grammar.Feed.ofSource source).fault = none := congrArg Prod.snd hpieces
      obtain ⟨_, hflat⟩ := (Sentences.iff_flat (by simp) hlines).mpr ⟨inner, hsentences, hinner⟩
      rcases parseByGrammar_error hrun with hparsing | hlexical | ⟨piece, hpiece, hspoilt⟩
      · exact hparsing
      · rw [hnone] at hlexical
        cases hlexical
      · rw [hfeed] at hpiece
        have hreads := hsound piece hpiece
        rcases hspoilt with ⟨hitem, htoken⟩ | ⟨hnumber, hvalue⟩
        · rw [hreads.token hitem] at htoken
          cases htoken
        · have hmem : piece.flat ∈ pieces.map Grammar.Piece.flat ++ [finish] :=
            List.mem_append_left _ (List.mem_map_of_mem hpiece)
          obtain ⟨n, hn⟩ := hflat.countable (by simp) piece.flat hmem
            (congrArg Grammar.Terminal.kind hnumber)
          rw [hreads.value hnumber, hn] at hvalue
          cases hvalue

/-- What cannot be enrolled is refused as a document. -/
theorem Statement.load_refuses {document : Json} {s : Statement} (h : Document.Loads document s)
    (henroll : s.enroll [] = none) : (Document.load document).Refuses [] := by
  have hplaceless : s.placeless.enroll [] = none := by
    rw [enroll_placeless_nil, henroll, Option.map_none]
  have hrun := h []
  cases hload : Document.load document [] with
  | mk result after =>
    simp only [Ensures, hload] at hrun
    cases result with
    | ok found =>
      have hfound : found = s.placeless := hrun
      have hafter := Document.load_enrolls document hload
      rw [hfound, hplaceless] at hafter
      cases hafter
    | error e => exact ⟨e, after, hload, hrun.1⟩

/-- Taking in a program in the spelling in which it is printed. It can be printed and it has a
document. If its definitions and calls are in order, both parsers and the document give the same
statements and programs; otherwise all three refuse it. -/
theorem loading_agrees {body : List Statement} (h : Statement.ConventionalAll body)
    (hliterals : Statement.LiteralsAll
      (fun depth s => 0 < depth → ∀ c ∈ s.toList, c.toNat ∉ Literal.lineBreaks) 0 body) :
    ∃ text document,
      Statement.programSource body = .ok text ∧
      (Statement.program body).toDocument = .ok document ∧
      ((∃ registry found after loaded restored,
          Statement.enrollAll body [] = some registry ∧
          parseByDescent text [] = (.ok found, after) ∧
          parseByGrammar text [] = (.ok found, after) ∧
          Document.load document [] = (.ok (.program loaded), restored) ∧
          Statement.sameBody loaded found = true ∧ Registry.same restored after ∧
          Statement.sameBody loaded body = true ∧ Registry.same restored registry) ∨
        (Statement.enrollAll body [] = none ∧
          (parseByDescent text).Refuses [] ∧ (parseByGrammar text).Refuses [] ∧
          (Document.load document).Refuses [])) := by
  obtain ⟨hregular, hprintable⟩ := h.regular
  obtain ⟨text, hsource, htext⟩ := Statement.programSource_eq hregular
  obtain ⟨document, hdocument, hloads⟩ := Statement.program_loads hregular
  have hprinted : Statement.RegularAll (Statement.respellAll Literal.inflated 0 body) :=
    Statement.respellAll_regular body 0 hregular hprintable
  obtain ⟨hfault, inner, found, hsentences, hinner, hsame⟩ :=
    Statement.joined_sentences hprinted (Statement.respellAll_tidy _ 0 body) htext
  -- The statements of the source are those of the program but for their places.
  have hplaceless : placelessAll found = placelessAll body := by
    have hfound := hsentences.regular (Lexer.tokens_lexical _ rfl)
    rw [Statement.placelessAll_of_same found _ hfound hprinted hsame]
    refine h.respell_placeless ?_
    simpa only [Literal.inflated_eq_self] using hliterals
  have henroll : (Statement.enrollAll found []).map Registry.placeless =
      (Statement.enrollAll body []).map Registry.placeless := by
    rw [← Statement.enrollAll_placeless, ← Statement.enrollAll_placeless, hplaceless]
  refine ⟨text, document, hsource, hdocument, ?_⟩
  cases hbody : Statement.enrollAll body [] with
  | some registry =>
    rw [hbody] at henroll
    obtain ⟨after, hafter, hregistry⟩ := Option.map_eq_some_iff.mp henroll
    have hload := Statement.load_of_enrolls hloads hbody
    refine .inl ⟨registry, found, after, placelessAll body, registry.placeless, rfl,
      parseByDescent_eq_ok.mpr ⟨hfault, ⟨inner, hsentences⟩, hafter⟩,
      (parseByGrammar_eq_ok hfault).mpr ⟨⟨inner, hsentences, hinner⟩, hafter⟩, hload, ?_, ?_,
      Statement.sameBody_placeless body, registry.same_placeless⟩
    · rw [← hplaceless]
      exact Statement.sameBody_placeless found
    · rw [← hregistry]
      exact after.same_placeless
  | none =>
    rw [hbody] at henroll
    have hfound := Option.map_eq_none_iff.mp henroll
    exact .inr ⟨rfl, parseByDescent_refuses hfault hsentences hfound,
      parseByGrammar_refuses hfault hsentences hinner hfound,
      Statement.load_refuses hloads hbody⟩

/-- A program that is defined again inside itself is refused, whether the second definition is met
when its name is read or when the first one is closed. -/
theorem loading_agrees_reopened :
    ∃ body text document,
      body =
        [.define (.text "P") [.text "a"]
            [.define (.text "P") [.text "b"] [.increment (.text "x0") (.text "b")],
              .output [⟨.string, .text "is", ⟨0, 0⟩, false⟩, ⟨.number, .text "10", ⟨0, 0⟩, false⟩]],
          .call (.text "y") (.text "P") [.text "y"]] ∧
      Statement.programSource body = .ok text ∧
      (Statement.program body).toDocument = .ok document ∧
      (parseByDescent text).Refuses [] ∧ (parseByGrammar text).Refuses [] ∧
      (Document.load document).Refuses [] := by
  have hvariable : ∀ name ∈ ["a", "b", "x0", "y"], (Atom.text name).IsVariable := by
    simp only [Atom.IsVariable, Atom.IsIdentifier]
    decide
  have hprogram : (Atom.text "P").IsProgram := by
    simp only [Atom.IsProgram, Atom.IsIdentifier]
    decide
  have hnumber : (Atom.text "10").IsDecimal := by
    simp only [Atom.IsDecimal]
    decide
  obtain ⟨text, document, hsource, hdocument, haccepted | hrefused⟩ :=
    @loading_agrees
      [.define (.text "P") [.text "a"]
          [.define (.text "P") [.text "b"] [.increment (.text "x0") (.text "b")],
            .output [⟨.string, .text "is", ⟨0, 0⟩, false⟩, ⟨.number, .text "10", ⟨0, 0⟩, false⟩]],
        .call (.text "y") (.text "P") [.text "y"]]
      (by simp [Statement.ConventionalAll, Statement.Conventional, Token.Conventional, itemKinds,
        Atom.IsText, hvariable, hprogram, hnumber])
      (by simp [Statement.LiteralsAll, Statement.Literals, Atom.content, Literal.lineBreaks])
  · obtain ⟨registry, _, _, _, _, henroll, _⟩ := haccepted
    cases henroll
  · exact ⟨_, text, document, rfl, hsource, hdocument, hrefused.2⟩

end LoopLanguage
