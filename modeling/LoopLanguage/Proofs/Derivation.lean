import Mathlib
import LoopLanguage.Proofs.Canonical
import LoopLanguage.Proofs.Growth
import LoopLanguage.Proofs.Unambiguous

/-!
The grammar of LOOP with its rules of context, said without a parser. A derivation goes along with
the definitions that are closed so far: a call needs one of them with as many parameters, and a
definition is added when its body is closed. The main statement is that parsing by descent accepts
exactly what can be derived, with the statements of the derivation, and that there are never two of
them.
-/

namespace LoopLanguage

/-- The number that the digits of a token stand for. -/
def Token.decimal (t : Token) : Nat := Nat.ofDigitChars 10 t.text.content.toList 0

mutual

/-- `Derives closed ts s after`: where the definitions `closed` are closed, the tokens `ts` are the
statement `s`, and behind it the definitions `after` are closed. -/
inductive Derives : Registry → List Token → Statement → Registry → Prop
  | assign {closed : Registry} {target sign number : Token} (htarget : target.kind = .identifier)
      (hsign : sign.kind = .assign) (hnumber : number.kind = .number) :
      Derives closed [target, sign, number] (.assign target.text number.decimal) closed
  | increment {closed : Registry} {target sign operand plus one : Token}
      (htarget : target.kind = .identifier) (hsign : sign.kind = .assign)
      (hoperand : operand.kind = .identifier) (hplus : plus.kind = .plus)
      (hnumber : one.kind = .number) (hone : one.decimal = 1) :
      Derives closed [target, sign, operand, plus, one] (.increment target.text operand.text) closed
  | call {closed : Registry} {target sign callee left : Token} {ts : List Token} {args : List Atom}
      {d : Definition} (htarget : target.kind = .identifier) (hsign : sign.kind = .assign)
      (hcallee : callee.kind = .identifier) (hleft : left.kind = .leftParen)
      (hargs : NameList ts args) (hclosed : d ∈ closed) (hname : d.name = callee.text)
      (hlength : args.length = d.params.length) :
      Derives closed (target :: sign :: callee :: left :: ts)
        (.call target.text callee.text args) closed
  | input {closed : Registry} {word : Token} {ts targets : List Token}
      (hword : word.kind = .kwInput) (htargets : ItemList targetKinds ts targets) :
      Derives closed (word :: ts) (.input targets) closed
  | output {closed : Registry} {word : Token} {ts items : List Token}
      (hword : word.kind = .kwPrint) (hitems : ItemList itemKinds ts items) :
      Derives closed (word :: ts) (.output items) closed
  | loop {closed after : Registry} {word count : Token} {opening ts : List Token}
      {body : List Statement} (hword : word.kind = .kwLoop) (hcount : count.kind = .identifier)
      (hopening : MaybeDo opening) (hbody : DerivesAll .kwEnd closed ts body after) :
      Derives closed (word :: count :: (opening ++ ts)) (.loop count.text body) after
  | define {closed inner : Registry} {word name left opening : Token} {ts us : List Token}
      {params : List Atom} {body : List Statement} (hword : word.kind = .kwProgram)
      (hname : name.kind = .identifier) (hleft : left.kind = .leftParen)
      (hparams : NameList ts params) (hnodup : params.Nodup) (hopening : opening.kind = .kwDo)
      (hbody : DerivesAll .kwEnd closed us body inner) (hnew : ∀ d ∈ inner, d.name ≠ name.text) :
      Derives closed (word :: name :: left :: (ts ++ opening :: us))
        (.define name.text params body) (inner ++ [⟨name.text, params, body⟩])

/-- The same for statements with the token of kind `close` that closes them, each followed by a
token that may end it and with any number of semicolons between them. -/
inductive DerivesAll : Kind → Registry → List Token → List Statement → Registry → Prop
  | close {close : Kind} {closed : Registry} {t : Token} (h : t.kind = close) :
      DerivesAll close closed [t] [] closed
  | semicolon {close : Kind} {closed after : Registry} {t : Token} {ts : List Token}
      {body : List Statement} (h : t.kind = .semicolon)
      (rest : DerivesAll close closed ts body after) : DerivesAll close closed (t :: ts) body after
  | cons {close : Kind} {closed middle after : Registry} {next : Token} {ts us : List Token}
      {s : Statement} {body : List Statement} (first : Derives closed ts s middle)
      (hnext : next.Ends) (rest : DerivesAll close middle (next :: us) body after) :
      DerivesAll close closed (ts ++ next :: us) (s :: body) after

end

/-! ### Tokens and registries of a source -/

/-- A token as it is scanned, whose number is not too long to be read. -/
def Token.Readable (t : Token) : Prop :=
  t.Lexical ∧ (t.kind = .number → t.text.content.length ≤ Text.maxDigits)

theorem Token.Readable.value {t : Token} (h : t.Readable) (hkind : t.kind = .number) :
    t.value = .ok t.decimal := by
  obtain ⟨hlexical, hlength⟩ := h
  obtain ⟨s, htext, hnumeral⟩ := hlexical.exists_numeral hkind
  have hshort : s.toList.length ≤ Text.maxDigits := by
    simpa only [htext, Atom.content, String.length_toList] using hlength hkind
  have hdigits : ∀ c ∈ s.toList, c.isDigit = true := by
    simp only [Lexeme.isNumeral, Bool.and_eq_true, List.all_eq_true] at hnumeral
    exact hnumeral.2
  simp only [Token.value, hkind, ne_eq, not_true_eq_false, if_false, htext,
    Text.isDecimal_of_isNumeral hnumeral, if_true, Numeral.read]
  rw [if_neg (by omega), Text.ofDigits_eq_ofDigitChars hdigits]
  simp [Token.decimal, htext, Atom.content]

namespace Registry

/-- What closed definitions of a source are: their names are words, and no two are the same. -/
structure Scoped (registry : Registry) : Prop where
  regular : ∀ d ∈ registry, Statement.RegularDefinition d
  distinct : (registry.map (·.name.key)).Nodup

theorem Scoped.nil : Scoped [] := ⟨by simp, by simp⟩

namespace Scoped

variable {registry after : Registry} {name : Atom} {d : Definition}

theorem enroll (h : registry.Scoped) {s : Statement} (hs : s.Regular)
    (henroll : s.enroll registry = some after) : after.Scoped :=
  ⟨Statement.enroll_regular s hs h.regular henroll,
    Statement.enroll_distinct s h.distinct henroll⟩

theorem enrollAll (h : registry.Scoped) {body : List Statement} (hbody : Statement.RegularAll body)
    (henroll : Statement.enrollAll body registry = some after) : after.Scoped :=
  ⟨Statement.enrollAll_regular body hbody h.regular henroll,
    Statement.enrollAll_distinct body h.distinct henroll⟩

/-- A definition is found under the name that it has, and under no other. -/
theorem find?_eq_some (h : registry.Scoped) (hname : name.IsIdentifier) :
    registry.find? name = some d ↔ d ∈ registry ∧ d.name = name := by
  constructor
  · intro hfind
    have hmem := List.mem_of_find?_eq_some hfind
    have hkey : d.name.key = name.key := by simpa using List.find?_some hfind
    exact ⟨hmem, (h.regular d hmem).1.key_inj hname hkey⟩
  · rintro ⟨hmem, rfl⟩
    cases hfind : registry.find? d.name with
    | none => simpa using List.find?_eq_none.mp hfind d hmem
    | some e =>
      have hkey : e.name.key = d.name.key := by simpa using List.find?_some hfind
      have hsame : e = d :=
        List.inj_on_of_nodup_map h.distinct (List.mem_of_find?_eq_some hfind) hmem hkey
      rw [hsame]

theorem find?_eq_none (h : registry.Scoped) (hname : name.IsIdentifier) :
    registry.find? name = none ↔ ∀ d ∈ registry, d.name ≠ name := by
  constructor
  · rintro hfind d hd rfl
    simpa using List.find?_eq_none.mp hfind d hd
  · intro hnew
    cases hfind : registry.find? name with
    | none => rfl
    | some d =>
      obtain ⟨hmem, heq⟩ := (h.find?_eq_some hname).mp hfind
      exact absurd heq (hnew d hmem)

end Scoped

end Registry

/-! ### Sentences and derivations -/

mutual

/-- A sentence whose calls and definitions fit is derivable. -/
theorem Sentence.derives : ∀ {ts inner : List Token} {s : Statement}, Sentence ts inner s →
    ∀ {closed after : Registry}, (∀ t ∈ ts, t.Readable) → closed.Scoped →
    s.enroll closed = some after → Derives closed ts s after
  | _, _, _, .assign htarget hsign hnumber hvalue, _, _, hts, _, h => by
    cases h
    rw [(hts _ (by simp)).value hnumber] at hvalue
    cases hvalue
    exact .assign htarget hsign hnumber
  | _, _, _, .increment htarget hsign hoperand hplus hnumber hvalue, _, _, hts, _, h => by
    cases h
    rw [(hts _ (by simp)).value hnumber] at hvalue
    exact .increment htarget hsign hoperand hplus hnumber (Except.ok.inj hvalue)
  | _, _, _, .call htarget hsign hcallee hleft hargs, _, _, hts, hclosed, h => by
    obtain ⟨d, hfind, hlength, rfl⟩ := Statement.enroll_call.mp h
    have hname := (hts _ (by simp)).1.identifier hcallee
    obtain ⟨hmem, heq⟩ := (hclosed.find?_eq_some hname).mp hfind
    exact .call htarget hsign hcallee hleft hargs hmem heq hlength
  | _, _, _, .input hword htargets, _, _, _, _, h => by
    cases h
    exact .input hword htargets
  | _, _, _, .output hword hitems _, _, _, _, _, h => by
    cases h
    exact .output hword hitems
  | _, _, _, .loop hword hcount hopening hbody, _, _, hts, hclosed, h =>
    .loop hword hcount hopening (hbody.derives (fun t ht => hts t (by simp [ht])) hclosed h)
  | _, _, _, .define hword hname hleft hparams hnodup hopening hbody, _, _, hts, hclosed, h => by
    obtain ⟨inner, hinner, hnew, rfl⟩ := Statement.enroll_define.mp h
    have hregular := hbody.regular fun t ht => (hts t (by simp [ht])).1
    have hfree := (hclosed.enrollAll hregular hinner).find?_eq_none
      ((hts _ (by simp)).1.identifier hname)
    exact .define hword hname hleft hparams hnodup hopening
      (hbody.derives (fun t ht => hts t (by simp [ht])) hclosed hinner) (hfree.mp hnew)

theorem Sentences.derives : ∀ {close : Kind} {ts inner : List Token} {body : List Statement},
    Sentences close ts inner body → ∀ {closed after : Registry}, (∀ t ∈ ts, t.Readable) →
    closed.Scoped → Statement.enrollAll body closed = some after →
    DerivesAll close closed ts body after
  | _, _, _, _, .close h, _, _, _, _, henroll => by
    cases henroll
    exact .close h
  | _, _, _, _, .semicolon h rest, _, _, hts, hclosed, henroll =>
    .semicolon h (rest.derives (fun t ht => hts t (by simp [ht])) hclosed henroll)
  | _, _, _, _, .cons first hnext rest, _, _, hts, hclosed, henroll => by
    obtain ⟨middle, hfirst, hrest⟩ := Statement.enrollAll_cons.mp henroll
    have hregular := first.regular fun t ht => (hts t (List.mem_append_left _ ht)).1
    have hmiddle := hclosed.enroll hregular hfirst
    exact .cons (first.derives (fun t ht => hts t (List.mem_append_left _ ht)) hclosed hfirst) hnext
      (rest.derives (fun t ht => hts t (List.mem_append_right _ ht)) hmiddle hrest)

end

mutual

/-- What is derivable is a sentence, and its calls and definitions fit. -/
theorem Derives.sentence : ∀ {closed after : Registry} {ts : List Token} {s : Statement},
    Derives closed ts s after → (∀ t ∈ ts, t.Readable) → closed.Scoped →
    (∃ inner, Sentence ts inner s) ∧ s.enroll closed = some after
  | _, _, _, _, .assign htarget hsign hnumber, hts, _ =>
    ⟨⟨_, .assign htarget hsign hnumber ((hts _ (by simp)).value hnumber)⟩, rfl⟩
  | _, _, _, _, .increment htarget hsign hoperand hplus hnumber hone, hts, _ => by
    have hvalue := (hts _ (by simp)).value hnumber
    rw [hone] at hvalue
    exact ⟨⟨_, .increment htarget hsign hoperand hplus hnumber hvalue⟩, rfl⟩
  | _, _, _, _, .call htarget hsign hcallee hleft hargs hmem heq hlength, hts, hclosed => by
    have hname := (hts _ (by simp)).1.identifier hcallee
    exact ⟨⟨_, .call htarget hsign hcallee hleft hargs⟩, Statement.enroll_call.mpr
      ⟨_, (hclosed.find?_eq_some hname).mpr ⟨hmem, heq⟩, hlength, rfl⟩⟩
  | _, _, _, _, .input hword htargets, _, _ => ⟨⟨_, .input hword htargets⟩, rfl⟩
  | _, _, _, _, .output hword hitems, hts, _ => by
    have hnumbers := Parser.checkNumbers_eq_ok.mpr fun t ht hkind =>
      ⟨_, (hts t (List.mem_cons_of_mem _ (hitems.mem.2 t ht).2)).value hkind⟩
    exact ⟨⟨_, .output hword hitems hnumbers⟩, rfl⟩
  | _, _, _, _, .loop hword hcount hopening hbody, hts, hclosed => by
    obtain ⟨⟨inner, hinner⟩, henroll⟩ :=
      hbody.sentences (fun t ht => hts t (by simp [ht])) hclosed
    exact ⟨⟨_, .loop hword hcount hopening hinner⟩, henroll⟩
  | _, _, _, _, .define hword hname hleft hparams hnodup hopening hbody hnew, hts, hclosed => by
    obtain ⟨⟨inner, hinner⟩, henroll⟩ :=
      hbody.sentences (fun t ht => hts t (by simp [ht])) hclosed
    have hregular := hinner.regular fun t ht => (hts t (by simp [ht])).1
    have hfree := (hclosed.enrollAll hregular henroll).find?_eq_none
      ((hts _ (by simp)).1.identifier hname)
    exact ⟨⟨_, .define hword hname hleft hparams hnodup hopening hinner⟩,
      Statement.enroll_define.mpr ⟨_, henroll, hfree.mpr hnew, rfl⟩⟩

theorem DerivesAll.sentences : ∀ {close : Kind} {closed after : Registry} {ts : List Token}
    {body : List Statement}, DerivesAll close closed ts body after → (∀ t ∈ ts, t.Readable) →
    closed.Scoped →
    (∃ inner, Sentences close ts inner body) ∧ Statement.enrollAll body closed = some after
  | _, _, _, _, _, .close h, _, _ => ⟨⟨_, .close h⟩, rfl⟩
  | _, _, _, _, _, .semicolon h rest, hts, hclosed => by
    obtain ⟨⟨inner, hinner⟩, henroll⟩ := rest.sentences (fun t ht => hts t (by simp [ht])) hclosed
    exact ⟨⟨_, .semicolon h hinner⟩, henroll⟩
  | _, _, _, _, _, .cons first hnext rest, hts, hclosed => by
    obtain ⟨⟨inner, hinner⟩, hfirst⟩ :=
      first.sentence (fun t ht => hts t (List.mem_append_left _ ht)) hclosed
    have hregular := hinner.regular fun t ht => (hts t (List.mem_append_left _ ht)).1
    have hmiddle := hclosed.enroll hregular hfirst
    obtain ⟨⟨inners, hinners⟩, hrest⟩ :=
      rest.sentences (fun t ht => hts t (List.mem_append_right _ ht)) hmiddle
    exact ⟨⟨_, .cons hinner hnext hinners⟩, Statement.enrollAll_cons.mpr ⟨_, hfirst, hrest⟩⟩

end

/-- Where a source is scanned without error and its numbers can be read, parsing by descent gives
the statements that its tokens derive, with the definitions that these close, and nothing else; and
the tokens derive one row of statements at most. -/
theorem parseByDescent_iff_derives {source : String}
    (hscanned : (Lexer.ofSource source false).tokens.2.1 = none)
    (hnumbers : ∀ t ∈ (Lexer.ofSource source false).tokens.1, t.kind = .number →
      t.text.content.length ≤ Text.maxDigits) :
    (∀ body registry, parseByDescent source [] = (.ok body, registry) ↔
      DerivesAll .eof [] (Lexer.ofSource source false).tokens.1 body registry) ∧
    ∀ body body' registry registry',
      DerivesAll .eof [] (Lexer.ofSource source false).tokens.1 body registry →
      DerivesAll .eof [] (Lexer.ofSource source false).tokens.1 body' registry' →
      body = body' ∧ registry = registry' := by
  have hreadable : ∀ t ∈ (Lexer.ofSource source false).tokens.1, t.Readable :=
    fun t ht => ⟨Lexer.tokens_lexical _ rfl t ht, hnumbers t ht⟩
  refine ⟨fun body registry => ?_, fun body body' registry registry' h h' => ?_⟩
  · rw [parseByDescent_eq_ok]
    constructor
    · rintro ⟨_, ⟨inner, hsentences⟩, henroll⟩
      exact hsentences.derives hreadable .nil henroll
    · intro hderives
      exact ⟨hscanned, hderives.sentences hreadable .nil⟩
  · obtain ⟨⟨inner, hsentences⟩, henroll⟩ := h.sentences hreadable .nil
    obtain ⟨⟨inner', hsentences'⟩, henroll'⟩ := h'.sentences hreadable .nil
    have hbody : body = body' :=
      (hsentences.unique hsentences' (by decide) (congrArg (· ++ []) rfl)).2.2
    subst hbody
    exact ⟨rfl, Option.some.inj (henroll.symm.trans henroll')⟩

theorem parseByDescent_iff_derives_nested :
    (Lexer.ofSource "LOOP n PROGRAM p(a) DO a := a + 01 END END;; n := p(n)" false).tokens.2.1 =
        none ∧
      DerivesAll .eof []
        (Lexer.ofSource "LOOP n PROGRAM p(a) DO a := a + 01 END END;; n := p(n)" false).tokens.1
        [.loop (.text "n") [.define (.text "p") [.text "a"] [.increment (.text "a") (.text "a")]],
          .call (.text "n") (.text "p") [.text "n"]]
        [⟨.text "p", [.text "a"], [.increment (.text "a") (.text "a")]⟩] := by
  have hnumbers : (Lexer.ofSource "LOOP n PROGRAM p(a) DO a := a + 01 END END;; n := p(n)"
      false).tokens.1.all (fun t => t.kind ≠ .number || t.text.content.length ≤ Text.maxDigits) =
        true := by
    cbv
  refine ⟨by cbv, ((parseByDescent_iff_derives (by cbv) fun t ht hkind => ?_).1 _ _).mp (by cbv)⟩
  simpa [hkind] using List.all_eq_true.mp hnumbers t ht

end LoopLanguage
