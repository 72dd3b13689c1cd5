import LoopLanguage.Proofs.DescentComplete
import LoopLanguage.Proofs.Phrases
import LoopLanguage.Statement.Source

/-!
Statements that come from a source. Their names are words that are no keywords, their numbers have
no more digits than can be written, and their lists have an item and only items of the right
kinds. A document promises none of this.
-/

namespace LoopLanguage

namespace Text

theorem digit?_lt {c : Char} {n : Nat} (h : digit? c = some n) : n < 10 := by
  unfold digit? at h
  split at h
  · split at h
    · next hdigit =>
      have hrange : c.toNat ≤ '9'.toNat := by
        simp only [Char.isDigit, Bool.and_eq_true, decide_eq_true_eq] at hdigit
        exact hdigit.2
      cases h
      have hnine : '9'.toNat = 57 := rfl
      have hzero : '0'.toNat = 48 := rfl
      omega
    · cases h
  · obtain ⟨z, hfind, rfl⟩ := Option.map_eq_some_iff.mp h
    have hrange := List.find?_some hfind
    simp only [Bool.and_eq_true, decide_eq_true_eq] at hrange
    omega

/-- A row of digits stands for a number below the power of ten with as many zeros. -/
theorem ofDigits_lt (cs : List Char) : ofDigits cs < Nat.pow 10 cs.length := by
  have hfold : ∀ (cs : List Char) (n : Nat),
      cs.foldl (fun n c => 10 * n + (digit? c).getD 0) n < (n + 1) * 10 ^ cs.length := by
    intro cs
    induction cs with
    | nil => simp
    | cons c cs ih =>
      intro n
      have hdigit : (digit? c).getD 0 < 10 := by
        cases h : digit? c with
        | none => simp
        | some d => simpa using digit?_lt h
      calc (c :: cs).foldl (fun n c => 10 * n + (digit? c).getD 0) n
          < (10 * n + (digit? c).getD 0 + 1) * 10 ^ cs.length := ih _
        _ ≤ (10 * (n + 1)) * 10 ^ cs.length := Nat.mul_le_mul_right _ (by omega)
        _ = (n + 1) * 10 ^ (c :: cs).length := by
          rw [List.length_cons, Nat.pow_succ, Nat.mul_comm 10, Nat.mul_assoc, Nat.mul_comm 10]
  simpa [ofDigits] using hfold cs 0

theorem lt_digitLimit {n k : Nat} (h : n < Nat.pow 10 k) (hk : k ≤ maxDigits) :
    n < digitLimit := by
  unfold digitLimit
  generalize maxDigits = limit at hk ⊢
  exact Nat.lt_of_lt_of_le h (Nat.pow_le_pow_right (by omega) hk)

end Text

/-- The number can be written with the digits that there are. -/
def Numeral.Short (n : Int) : Prop := n.natAbs < Text.digitLimit

theorem Numeral.short_zero : Short 0 := Text.lt_digitLimit (k := 0) (by decide) (Nat.zero_le _)

theorem Numeral.write_of_short {n : Int} (h : Short n) : write n = .ok (toString n) := if_pos h

theorem Numeral.write_of_not_short {n : Int} (h : ¬ Short n) :
    write n = .error .tooManyDigitsWritten := if_neg h

theorem Numeral.short_of_read {digits : List Char} {n : Nat} (h : read digits = .ok n) :
    Short n := by
  unfold read at h
  split at h
  · cases h
  · next hlength =>
    cases h
    exact Text.lt_digitLimit (Text.ofDigits_lt digits) (by omega)

theorem Numeral.read_eq_error {digits : List Char} {e : Error} (h : read digits = .error e) :
    e = .tooManyDigitsRead digits.length ∧ Text.maxDigits < digits.length := by
  unfold read at h
  split at h
  · next hlength =>
    cases h
    exact ⟨rfl, hlength⟩
  · cases h

theorem Token.short_of_value {t : Token} {n : Nat} (h : t.value = .ok n) : Numeral.Short n := by
  unfold Token.value at h
  split at h
  · cases h
  · split at h
    · split at h
      · exact Numeral.short_of_read h
      · cases h
    · cases h
    · cases h

theorem Parser.checkNumbers_eq_ok {items : List Token} :
    checkNumbers items = .ok () ↔ ∀ t ∈ items, t.kind = .number → ∃ n, t.value = .ok n := by
  induction items with
  | nil =>
    refine iff_of_true rfl ?_
    simp
  | cons first items ih =>
    have hfirst : (if first.kind = .number then do let _ ← first.value else .ok ()) =
        (.ok () : Except Error Unit) ↔ (first.kind = .number → ∃ n, first.value = .ok n) := by
      by_cases hkind : first.kind = .number
      · rw [if_pos hkind]
        constructor
        · intro h _
          obtain ⟨n, hn, _⟩ := result_bind_eq_ok.mp h
          exact ⟨n, hn⟩
        · intro h
          obtain ⟨n, hn⟩ := h hkind
          rw [hn]
          rfl
      · simp [hkind]
    rw [List.forall_mem_cons, ← hfirst, ← ih]
    constructor
    · intro h
      obtain ⟨_, hone, hrest⟩ := result_bind_eq_ok.mp h
      exact ⟨hone, hrest⟩
    · rintro ⟨hone, hrest⟩
      exact result_bind_eq_ok.mpr ⟨(), hone, hrest⟩

namespace Statement

mutual

def Regular : Statement → Prop
  | assign target value =>
    target.IsIdentifier ∧ 0 ≤ value ∧ Numeral.Short value
  | increment target operand => target.IsIdentifier ∧ operand.IsIdentifier
  | call target callee args =>
    target.IsIdentifier ∧ callee.IsIdentifier ∧ ∀ arg ∈ args, arg.IsIdentifier
  | input targets => targets ≠ [] ∧ ∀ t ∈ targets, t.kind ∈ targetKinds ∧ t.Lexical
  | output items =>
    items ≠ [] ∧ ∀ t ∈ items, t.kind ∈ itemKinds ∧ t.Lexical ∧
      (t.kind = .number → ∃ n, t.value = .ok n)
  | loop count body => count.IsIdentifier ∧ RegularAll body
  | define name params body =>
    name.IsIdentifier ∧ (∀ param ∈ params, param.IsIdentifier) ∧ params.Nodup ∧ RegularAll body
  | _ => False

def RegularAll : List Statement → Prop
  | [] => True
  | s :: rest => Regular s ∧ RegularAll rest

end

end Statement

namespace Atom.IsIdentifier

theorem isPresent {a : Atom} (h : a.IsIdentifier) : a.isPresent = true := by
  obtain ⟨s, rfl⟩ := h.exists_text
  rfl

end Atom.IsIdentifier

namespace Statement

theorem regularAll_iff {body : List Statement} : RegularAll body ↔ ∀ s ∈ body, s.Regular := by
  induction body with
  | nil => simp [RegularAll]
  | cons first rest ih => rw [RegularAll, ih, List.forall_mem_cons]

theorem RegularAll.mem {body : List Statement} (h : RegularAll body) {s : Statement}
    (hs : s ∈ body) : s.Regular := regularAll_iff.mp h s hs

/-- What comes from a source is ready. -/
theorem checkReady_of_regular {s : Statement} (h : s.Regular) : s.checkReady = .ok () := by
  cases s with
  | assign => simp [checkReady, form?, isReady, h.1.isPresent]
  | increment => simp [checkReady, form?, isReady, h.1.isPresent, h.2.isPresent]
  | call => simp [checkReady, form?, isReady, h.1.isPresent, h.2.1.isPresent]
  | input => rfl
  | output => rfl
  | loop => simp [checkReady, form?, isReady, h.1.isPresent]
  | define => simp [checkReady, form?, isReady, h.1.isPresent]
  | missing => exact h.elim
  | token => exact h.elim
  | program => exact h.elim

/-- A program that could have been parsed. -/
def RegularDefinition (d : Definition) : Prop :=
  d.name.IsIdentifier ∧ (∀ param ∈ d.params, param.IsIdentifier) ∧ RegularAll d.body

section Enroll

variable {P : Definition → Prop}

mutual

/-- What holds of every definition that is regular holds of the programs that are enrolled. -/
theorem enroll_forall
    (hP : ∀ name params body, (define name params body).Regular → P ⟨name, params, body⟩) :
    ∀ (s : Statement) {registry after : Registry}, s.Regular → (∀ d ∈ registry, P d) →
      enroll s registry = some after → ∀ d ∈ after, P d
  | .call .., _, _, _, hregistry, h => by
    obtain ⟨_, _, _, rfl⟩ := enroll_call.mp h
    exact hregistry
  | .loop _ body, _, _, hregular, hregistry, h => enrollAll_forall hP body hregular.2 hregistry h
  | .define name params body, _, _, hregular, hregistry, h => by
    obtain ⟨inner, hinner, _, rfl⟩ := enroll_define.mp h
    intro d hd
    rcases List.mem_append.mp hd with hd | hd
    · exact enrollAll_forall hP body hregular.2.2.2 hregistry hinner d hd
    · obtain rfl := List.mem_singleton.mp hd
      exact hP name params body hregular
  | .assign .., _, _, _, hregistry, h | .increment .., _, _, _, hregistry, h
  | .input _, _, _, _, hregistry, h | .output _, _, _, _, hregistry, h => by
    cases h
    exact hregistry
  | .missing, _, _, hregular, _, _ | .token _, _, _, hregular, _, _
  | .program _, _, _, hregular, _, _ => hregular.elim

theorem enrollAll_forall
    (hP : ∀ name params body, (define name params body).Regular → P ⟨name, params, body⟩) :
    ∀ (body : List Statement) {registry after : Registry}, RegularAll body →
      (∀ d ∈ registry, P d) → enrollAll body registry = some after → ∀ d ∈ after, P d
  | [], _, _, _, hregistry, h => by
    cases h
    exact hregistry
  | s :: rest, _, _, hregular, hregistry, h => by
    obtain ⟨next, hs, hrest⟩ := enrollAll_cons.mp h
    exact enrollAll_forall hP rest hregular.2 (enroll_forall hP s hregular.1 hregistry hs) hrest

end

end Enroll

theorem enroll_regular (s : Statement) {registry after : Registry} (hregular : s.Regular)
    (hregistry : ∀ d ∈ registry, RegularDefinition d) (h : enroll s registry = some after) :
    ∀ d ∈ after, RegularDefinition d :=
  enroll_forall (fun _ _ _ h => ⟨h.1, h.2.1, h.2.2.2⟩) s hregular hregistry h

/-- Regular statements enroll regular programs. -/
theorem enrollAll_regular (body : List Statement) {registry after : Registry}
    (hregular : RegularAll body) (hregistry : ∀ d ∈ registry, RegularDefinition d)
    (h : enrollAll body registry = some after) : ∀ d ∈ after, RegularDefinition d :=
  enrollAll_forall (fun _ _ _ h => ⟨h.1, h.2.1, h.2.2.2⟩) body hregular hregistry h

end Statement

theorem Token.Lexical.exists_text {t : Token} (h : t.Lexical) (hkind : t.kind = .string) :
    ∃ s, t.text = .text s := by
  simp only [Token.Lexical, hkind] at h
  cases htext : t.text with
  | text s => exact ⟨s, rfl⟩
  | absent => simp [htext, Atom.IsText] at h
  | other => simp [htext, Atom.IsText] at h

theorem Token.Lexical.exists_numeral {t : Token} (h : t.Lexical) (hkind : t.kind = .number) :
    ∃ s, t.text = .text s ∧ Lexeme.isNumeral s.toList = true := by
  simp only [Token.Lexical, hkind] at h
  cases htext : t.text with
  | text s => exact ⟨s, rfl, by simpa [htext, Atom.IsNumeral] using h⟩
  | absent => simp [htext, Atom.IsNumeral] at h
  | other => simp [htext, Atom.IsNumeral] at h

theorem Names.identifiers {ts : List Token} {names : List Atom} (h : Names ts names)
    (hts : ∀ t ∈ ts, t.Lexical) : ∀ name ∈ names, name.IsIdentifier := by
  induction h with
  | @last name close hname _ =>
    intro a ha
    obtain rfl := List.mem_singleton.mp ha
    exact (hts name (by simp)).identifier hname
  | @more name comma ts names hname _ _ ih =>
    intro a ha
    cases ha with
    | head => exact (hts name (by simp)).identifier hname
    | tail _ ha => exact ih (fun t ht => hts t (by simp [ht])) a ha

theorem NameList.identifiers {ts : List Token} {names : List Atom} (h : NameList ts names)
    (hts : ∀ t ∈ ts, t.Lexical) : ∀ name ∈ names, name.IsIdentifier := by
  cases h with
  | none => simp
  | some h => exact h.identifiers hts

/-- The items are tokens of the list, and each has one of the kinds. -/
theorem Items.mem {kinds : List Kind} {ts items : List Token} (h : Items kinds ts items) :
    ∀ t ∈ items, t.kind ∈ kinds ∧ t ∈ ts := by
  induction h with
  | done => simp
  | trailing => simp
  | @more comma item ts items _ _ hitem _ _ ih =>
    intro t ht
    cases ht with
    | head => exact ⟨hitem, by simp⟩
    | tail _ ht => exact ⟨(ih t ht).1, by simp [(ih t ht).2]⟩

theorem ItemList.mem {kinds : List Kind} {ts items : List Token} (h : ItemList kinds ts items) :
    items ≠ [] ∧ ∀ t ∈ items, t.kind ∈ kinds ∧ t ∈ ts := by
  cases h with
  | @mk first ts items hfirst rest =>
    refine ⟨by simp, fun t ht => ?_⟩
    cases ht with
    | head => exact ⟨hfirst, by simp⟩
    | tail _ ht => exact ⟨(rest.mem t ht).1, by simp [(rest.mem t ht).2]⟩

mutual

theorem Sentence.regular : ∀ {ts inner : List Token} {s : Statement}, Sentence ts inner s →
    (∀ t ∈ ts, t.Lexical) → s.Regular
  | _, _, _, .assign htarget _ _ hvalue, hts =>
    ⟨(hts _ (by simp)).identifier htarget, Int.natCast_nonneg _, Token.short_of_value hvalue⟩
  | _, _, _, .increment htarget _ hoperand _ _ _, hts =>
    ⟨(hts _ (by simp)).identifier htarget, (hts _ (by simp)).identifier hoperand⟩
  | _, _, _, .call htarget _ hcallee _ hargs, hts =>
    ⟨(hts _ (by simp)).identifier htarget, (hts _ (by simp)).identifier hcallee,
      hargs.identifiers fun t ht => hts t (by simp [ht])⟩
  | _, _, _, .input _ htargets, hts => by
    obtain ⟨hne, hmem⟩ := htargets.mem
    exact ⟨hne, fun t ht => ⟨(hmem t ht).1, hts t (by simp [(hmem t ht).2])⟩⟩
  | _, _, _, .output _ hitems hnumbers, hts => by
    obtain ⟨hne, hmem⟩ := hitems.mem
    exact ⟨hne, fun t ht => ⟨(hmem t ht).1, hts t (by simp [(hmem t ht).2]),
      Parser.checkNumbers_eq_ok.mp hnumbers t ht⟩⟩
  | _, _, _, .loop _ hcount _ hbody, hts =>
    ⟨(hts _ (by simp)).identifier hcount, hbody.regular fun t ht => hts t (by simp [ht])⟩
  | _, _, _, .define _ hname _ hparams hnodup _ hbody, hts =>
    ⟨(hts _ (by simp)).identifier hname, hparams.identifiers fun t ht => hts t (by simp [ht]),
      hnodup, hbody.regular fun t ht => hts t (by simp [ht])⟩

theorem Sentences.regular : ∀ {close : Kind} {ts inner : List Token} {body : List Statement},
    Sentences close ts inner body → (∀ t ∈ ts, t.Lexical) → Statement.RegularAll body
  | _, _, _, _, .close _, _ => trivial
  | _, _, _, _, .semicolon _ rest, hts => rest.regular fun t ht => hts t (by simp [ht])
  | _, _, _, _, .cons first _ rest, hts =>
    ⟨first.regular fun t ht => hts t (by simp [ht]), rest.regular fun t ht => hts t (by
      simp only [List.mem_append]
      exact .inr ht)⟩

end

/-- A program with its registry, as one of the parsers gives them where the programs in `before`
were there. -/
def ParsedAfter (before : Registry) (body : List Statement) (registry : Registry) : Prop :=
  ∃ source, parseByDescent source before = (.ok body, registry) ∨
    parseByGrammar source before = (.ok body, registry)

/-- A program with its registry, as one of the parsers gives them where there was no program
before. -/
def Parsed (body : List Statement) (registry : Registry) : Prop :=
  ∃ source, parseByDescent source [] = (.ok body, registry) ∨
    parseByGrammar source [] = (.ok body, registry)

theorem ParsedAfter.regular {before registry : Registry} {body : List Statement}
    (h : ParsedAfter before body registry) : Statement.RegularAll body := by
  obtain ⟨source, h | h⟩ := h
  · obtain ⟨_, ⟨inner, hinner⟩, _⟩ := parseByDescent_eq_ok.mp h
    exact hinner.regular (Lexer.tokens_lexical _ rfl)
  · obtain ⟨_, hsentences, _⟩ := Grammar.parseByGrammar_ok h
    obtain ⟨inner, hinner⟩ := hsentences ⟨.eof, .absent, ⟨1, 1⟩, false⟩ rfl
    refine hinner.regular fun t ht => ?_
    rcases List.mem_append.mp ht with ht | ht
    · obtain ⟨piece, hpiece, rfl⟩ := List.mem_map.mp ht
      exact Grammar.pieces_lexical source piece hpiece
    · obtain rfl := List.mem_singleton.mp ht
      trivial

theorem Parsed.regular {body : List Statement} {registry : Registry} (h : Parsed body registry) :
    Statement.RegularAll body :=
  @ParsedAfter.regular [] registry body h

theorem ParsedAfter.enrolls {before registry : Registry} {body : List Statement}
    (h : ParsedAfter before body registry) : Statement.enrollAll body before = some registry := by
  obtain ⟨source, h | h⟩ := h
  · exact (parseByDescent_eq_ok.mp h).2.2
  · exact (Grammar.parseByGrammar_ok h).2.2

theorem Parsed.enrolls {body : List Statement} {registry : Registry} (h : Parsed body registry) :
    Statement.enrollAll body [] = some registry :=
  @ParsedAfter.enrolls [] registry body h

end LoopLanguage
