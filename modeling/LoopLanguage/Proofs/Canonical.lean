import LoopLanguage.Proofs.Indentation
import LoopLanguage.Proofs.Regular
import LoopLanguage.Statement.Source

/-!
The canonical spelling of a program: variables in small letters, programs in capitals, numbers
without leading zeros. `Statement.respell` also takes what becomes of the string literals, which
may depend on how deep they stand: for the canonical program nothing, for a printed and indented
one what `Literal.inflate` does.
-/

namespace LoopLanguage

namespace Text

/-- What holds of the first 128 characters holds of a character that is one of them. -/
theorem ascii_forall {P : Char → Prop} (h : ∀ n < 128, P (Char.ofNat n)) {c : Char}
    (hc : c.toNat < 128) : P c := by
  have hofNat := h c.toNat hc
  rwa [Char.ofNat_toNat] at hofNat

theorem toNat_lt_of_isNameChar {c : Char} (h : Lexeme.isNameChar c = true) : c.toNat < 128 := by
  have hle : ∀ d : Char, c.val ≤ d.val → c.toNat ≤ d.toNat := fun _ => UInt32.le_iff_toNat_le.mp
  have hupper : c.isUpper = true → c.toNat ≤ 'Z'.toNat := fun h => hle _ (of_decide_eq_true h).2
  have hlower : c.isLower = true → c.toNat ≤ 'z'.toNat := fun h =>
    hle _ (of_decide_eq_true (Bool.and_eq_true_iff.mp h).2)
  have hclass : (c.isUpper || c.isLower || c.isDigit || c == '_') = true := h
  simp only [Bool.or_eq_true, beq_iff_eq] at hclass
  rcases hclass with ((hcase | hcase) | hdigit) | rfl
  · exact Nat.lt_of_le_of_lt (hupper hcase) (by decide)
  · exact Nat.lt_of_le_of_lt (hlower hcase) (by decide)
  · exact Nat.lt_of_le_of_lt (Char.isDigit_iff_toNat.mp hdigit).2 (by decide)
  · decide

theorem lowerAfter_ascii {cs : List Char} (h : ∀ c ∈ cs, c.toNat < 128) (before : List Char) :
    lowerAfter before cs = cs.map Char.toLower := by
  induction cs generalizing before with
  | nil => rfl
  | cons c cs ih =>
    have hc := h c (by simp)
    rw [lowerAfter, ih fun d hd => h d (by simp [hd]), if_neg (by omega), lowerChar, if_pos hc]
    rfl

theorem toList_lower {s : String} (h : ∀ c ∈ s.toList, c.toNat < 128) :
    (lower s).toList = s.toList.map Char.toLower := by
  rw [lower, String.toList_ofList, lowerAfter_ascii h]

theorem toList_upper {s : String} (h : ∀ c ∈ s.toList, c.toNat < 128) :
    (upper s).toList = s.toList.map Char.toUpper := by
  rw [upper, String.toList_ofList]
  generalize s.toList = cs at h
  induction cs with
  | nil => rfl
  | cons c cs ih =>
    rw [List.flatMap_cons, ih fun d hd => h d (by simp [hd]), upperChar, if_pos (h c (by simp))]
    rfl

end Text

namespace Lexeme

theorem isNameChar_of_isName {cs : List Char} (h : isName cs = true) :
    ∀ c ∈ cs, isNameChar c = true := by
  cases cs with
  | nil => simp
  | cons c cs =>
    simp only [isName, Bool.and_eq_true, List.all_eq_true] at h
    intro d hd
    cases hd with
    | head => exact isNameChar_of_isNameStart h.1
    | tail _ hd => exact h.2 d hd

theorem toNat_lt_of_isName {cs : List Char} (h : isName cs = true) : ∀ c ∈ cs, c.toNat < 128 :=
  fun c hc => Text.toNat_lt_of_isNameChar (isNameChar_of_isName h c hc)

/-- Names stay names under a change of letters. -/
theorem isName_map {f : Char → Char} (hstart : ∀ c, isNameStart c = true → isNameStart (f c) = true)
    (hchar : ∀ c, isNameChar c = true → isNameChar (f c) = true) {cs : List Char}
    (h : isName cs = true) : isName (cs.map f) = true := by
  cases cs with
  | nil => cases h
  | cons c cs =>
    simp only [isName, Bool.and_eq_true, List.all_eq_true] at h
    simp only [List.map_cons, isName, Bool.and_eq_true, List.all_eq_true, List.mem_map]
    refine ⟨hstart c h.1, ?_⟩
    rintro _ ⟨d, hd, rfl⟩
    exact hchar d (h.2 d hd)

theorem isNameStart_toLower {c : Char} (h : isNameStart c = true) :
    isNameStart c.toLower = true :=
  Text.ascii_forall (P := fun c => isNameStart c = true → isNameStart c.toLower = true)
    (by decide) (Text.toNat_lt_of_isNameChar (isNameChar_of_isNameStart h)) h

theorem isNameChar_toLower {c : Char} (h : isNameChar c = true) : isNameChar c.toLower = true :=
  Text.ascii_forall (P := fun c => isNameChar c = true → isNameChar c.toLower = true)
    (by decide) (Text.toNat_lt_of_isNameChar h) h

theorem isNameStart_toUpper {c : Char} (h : isNameStart c = true) :
    isNameStart c.toUpper = true :=
  Text.ascii_forall (P := fun c => isNameStart c = true → isNameStart c.toUpper = true)
    (by decide) (Text.toNat_lt_of_isNameChar (isNameChar_of_isNameStart h)) h

theorem isNameChar_toUpper {c : Char} (h : isNameChar c = true) : isNameChar c.toUpper = true :=
  Text.ascii_forall (P := fun c => isNameChar c = true → isNameChar c.toUpper = true)
    (by decide) (Text.toNat_lt_of_isNameChar h) h

end Lexeme

/-- No keyword is written in small letters. -/
theorem Lexer.wordKind_of_not_upper {word : String} (h : ∀ c ∈ word.toList, c.isUpper = false) :
    wordKind word = .identifier := by
  unfold wordKind
  cases hlookup : keywords.lookup word with
  | none => rfl
  | some kind =>
    have hupper : ∀ entry ∈ keywords, entry.1.toList.any Char.isUpper = true := by decide
    obtain ⟨c, hc, hcase⟩ := List.any_eq_true.mp (hupper _ (Lexeme.mem_of_lookup hlookup))
    rw [h c hc] at hcase
    cases hcase

namespace Atom

/-- The characters of a name or a text. -/
def content : Atom → String
  | .text s => s
  | _ => ""

/-- Change a text; anything else stays. -/
def map (f : String → String) : Atom → Atom
  | .text s => .text (f s)
  | a => a

def lower (a : Atom) : Atom := a.map Text.lower

def upper (a : Atom) : Atom := a.map Text.upper

def IsKeyword : Atom → Prop
  | .text s => Lexer.wordKind s ≠ .identifier
  | _ => False

theorem text_key_inj {s r : String} (h : (text s).key = (text r).key) : s = r := by
  rw [key_text, key_text] at h
  exact Json.str.inj h

namespace IsIdentifier

variable {a b : Atom}

theorem eq_text (h : a.IsIdentifier) : a = .text a.content := by
  obtain ⟨s, rfl⟩ := h.exists_text
  rfl

theorem isName (h : a.IsIdentifier) : Lexeme.isName a.content.toList = true := by
  rw [h.eq_text] at h
  exact h.1

theorem wordKind (h : a.IsIdentifier) : Lexer.wordKind a.content = .identifier := by
  rw [h.eq_text] at h
  exact h.2

theorem key_inj (ha : a.IsIdentifier) (hb : b.IsIdentifier) (h : a.key = b.key) : a = b := by
  obtain ⟨s, rfl⟩ := ha.exists_text
  obtain ⟨r, rfl⟩ := hb.exists_text
  rw [text_key_inj h]

theorem toList_lower (h : a.IsIdentifier) :
    a.lower.content.toList = a.content.toList.map Char.toLower := by
  have hascii := Lexeme.toNat_lt_of_isName h.isName
  rw [h.eq_text]
  exact Text.toList_lower hascii

theorem toList_upper (h : a.IsIdentifier) :
    a.upper.content.toList = a.content.toList.map Char.toUpper := by
  have hascii := Lexeme.toNat_lt_of_isName h.isName
  rw [h.eq_text]
  exact Text.toList_upper hascii

theorem isUpper_lower (h : a.IsIdentifier) :
    ∀ c ∈ a.lower.content.toList, c.isUpper = false := by
  intro c hc
  rw [h.toList_lower] at hc
  obtain ⟨d, hd, rfl⟩ := List.mem_map.mp hc
  exact Text.ascii_forall (P := fun c => c.toLower.isUpper = false) (by decide)
    (Lexeme.toNat_lt_of_isName h.isName d hd)

theorem lower (h : a.IsIdentifier) : a.lower.IsIdentifier := by
  have hname : Lexeme.isName a.lower.content.toList = true := by
    rw [h.toList_lower]
    exact Lexeme.isName_map (fun _ => Lexeme.isNameStart_toLower)
      (fun _ => Lexeme.isNameChar_toLower) h.isName
  have hkind : Lexer.wordKind a.lower.content = .identifier :=
    Lexer.wordKind_of_not_upper h.isUpper_lower
  rw [h.eq_text] at hname hkind ⊢
  exact ⟨hname, hkind⟩

theorem isName_upper (h : a.IsIdentifier) : Lexeme.isName a.upper.content.toList = true := by
  rw [h.toList_upper]
  exact Lexeme.isName_map (fun _ => Lexeme.isNameStart_toUpper)
    (fun _ => Lexeme.isNameChar_toUpper) h.isName

theorem upper (h : a.IsIdentifier) (hkeyword : ¬ a.upper.IsKeyword) : a.upper.IsIdentifier := by
  have hname := h.isName_upper
  rw [h.eq_text] at hname hkeyword ⊢
  exact ⟨hname, Decidable.not_not.mp hkeyword⟩

end IsIdentifier

end Atom

namespace Text

theorem digit?_of_isDigit {c : Char} (h : c.isDigit = true) :
    digit? c = some (c.toNat - '0'.toNat) := by
  have hrange := Char.isDigit_iff_toNat.mp h
  have hnine : '9'.toNat = 57 := rfl
  rw [digit?, if_pos (by omega), if_pos h]

theorem isDecimal_of_isNumeral {cs : List Char} (h : Lexeme.isNumeral cs = true) :
    isDecimal cs = true := by
  simp only [Lexeme.isNumeral, Bool.and_eq_true, List.all_eq_true] at h
  simp only [isDecimal, Bool.and_eq_true, List.all_eq_true]
  refine ⟨h.1, fun c hc => ?_⟩
  rw [digit?_of_isDigit (h.2 c hc)]
  rfl

theorem isNumeral_toDigits (n : Nat) : Lexeme.isNumeral (Nat.toDigits 10 n) = true := by
  simp only [Lexeme.isNumeral, Bool.and_eq_true, List.all_eq_true, Bool.not_eq_true',
    List.isEmpty_eq_false_iff]
  exact ⟨Nat.toDigits_ne_nil, fun c hc => Nat.isDigit_of_mem_toDigits (by omega) (by omega) hc⟩

theorem length_toDigits_le {n : Nat} (h : n < digitLimit) :
    (Nat.toDigits 10 n).length ≤ maxDigits := by
  have hpos : 0 < maxDigits := by decide
  unfold digitLimit at h
  generalize maxDigits = limit at hpos h ⊢
  exact (Nat.length_toDigits_le_iff (by omega) hpos).mpr h

/-- Over the digits of ASCII the value is the usual one. -/
theorem ofDigits_eq_ofDigitChars {cs : List Char} (h : ∀ c ∈ cs, c.isDigit = true) :
    ofDigits cs = Nat.ofDigitChars 10 cs 0 := by
  have hfold : ∀ (cs : List Char) (m : Nat), (∀ c ∈ cs, c.isDigit = true) →
      cs.foldl (fun n c => 10 * n + (digit? c).getD 0) m = Nat.ofDigitChars 10 cs m := by
    intro cs
    induction cs with
    | nil =>
      intro m _
      rw [Nat.ofDigitChars_nil]
      rfl
    | cons c cs ih =>
      intro m h
      rw [List.foldl_cons, ih _ fun d hd => h d (by simp [hd]), Nat.ofDigitChars_cons,
        digit?_of_isDigit (h c (by simp))]
      rfl
  exact hfold cs 0 h

/-- A number is read back from its digits. -/
theorem ofDigits_toDigits (n : Nat) : ofDigits (Nat.toDigits 10 n) = n := by
  rw [ofDigits_eq_ofDigitChars fun c hc => Nat.isDigit_of_mem_toDigits (by omega) (by omega) hc]
  exact Nat.ofDigitChars_ten_toDigits

end Text

/-- A short number has the value that it is written for. -/
theorem Numeral.read_toDigits {n : Nat} (h : Short n) : read (Nat.toDigits 10 n) = .ok n := by
  have hlength := Text.length_toDigits_le h
  rw [Int.natAbs_natCast] at hlength
  rw [read, if_neg (by omega), Text.ofDigits_toDigits]

theorem Token.value_of_numeral {n : Nat} (h : Numeral.Short n) (place : Place) (lineStart : Bool) :
    Token.value ⟨.number, .text (String.ofList (Nat.toDigits 10 n)), place, lineStart⟩ = .ok n := by
  have hdecimal := Text.isDecimal_of_isNumeral (Text.isNumeral_toDigits n)
  simp only [Token.value, ne_eq, not_true_eq_false, if_false, String.toList_ofList, hdecimal,
    if_true]
  exact Numeral.read_toDigits h

/-- A token in canonical spelling; `string` is what becomes of a literal. -/
def Token.respell (string : String → String) (t : Token) : Token :=
  { t with
    text :=
      match t.kind with
      | .string => t.text.map string
      | .number =>
        match t.value with
        | .ok n => .text (toString n)
        | .error _ => t.text
      | _ => t.text.lower
    lineStart := false }

namespace Statement

mutual

/-- A statement at a depth in canonical spelling; `strings` is what becomes of the literals at each
depth. -/
def respell (strings : Nat → String → String) : Nat → Statement → Statement
  | _, assign target value => assign target.lower value
  | _, increment target operand => increment target.lower operand.lower
  | _, call target callee args => call target.lower callee.upper (args.map Atom.lower)
  | depth, input targets => input (targets.map (Token.respell (strings depth)))
  | depth, output items => output (items.map (Token.respell (strings depth)))
  | depth, loop count body => loop count.lower (respellAll strings (depth + 1) body)
  | depth, define name params body =>
    define name.upper (params.map Atom.lower) (respellAll strings (depth + 1) body)
  | _, missing => missing
  | _, token t => token t
  | depth, program body => program (respellAll strings depth body)

def respellAll (strings : Nat → String → String) : Nat → List Statement → List Statement
  | _, [] => []
  | depth, s :: rest => respell strings depth s :: respellAll strings depth rest

end

/-- The statements in canonical spelling. -/
def canonical (body : List Statement) : List Statement := respellAll (fun _ text => text) 0 body

mutual

/-- `P` holds of every string literal and the depth at which it stands. -/
def Literals (P : Nat → String → Prop) : Nat → Statement → Prop
  | depth, input targets => ∀ t ∈ targets, t.kind = .string → P depth t.text.content
  | depth, output items => ∀ t ∈ items, t.kind = .string → P depth t.text.content
  | depth, loop _ body => LiteralsAll P (depth + 1) body
  | depth, define _ _ body => LiteralsAll P (depth + 1) body
  | depth, program body => LiteralsAll P depth body
  | _, _ => True

def LiteralsAll (P : Nat → String → Prop) : Nat → List Statement → Prop
  | _, [] => True
  | depth, s :: rest => Literals P depth s ∧ LiteralsAll P depth rest

end

mutual

/-- The names of programs stay names in capitals, and parameters stay distinct in small letters. -/
def Printable : Statement → Prop
  | call _ callee _ => callee.upper.IsIdentifier
  | loop _ body => PrintableAll body
  | define name params body =>
    name.upper.IsIdentifier ∧ (params.map Atom.lower).Nodup ∧ PrintableAll body
  | _ => True

def PrintableAll : List Statement → Prop
  | [] => True
  | s :: rest => Printable s ∧ PrintableAll rest

end

end Statement

namespace Token

variable {string : String → String} {t : Token}

@[simp] theorem respell_kind : (t.respell string).kind = t.kind := rfl

@[simp] theorem respell_lineStart : (t.respell string).lineStart = false := rfl

theorem respell_string {s : String} (hkind : t.kind = .string) (htext : t.text = .text s) :
    (t.respell string).text = .text (string s) := by
  simp [respell, hkind, htext, Atom.map]

theorem respell_number {n : Nat} (hkind : t.kind = .number) (hvalue : t.value = .ok n) :
    (t.respell string).text = .text (toString n) := by
  simp [respell, hkind, hvalue]

theorem respell_identifier (hkind : t.kind = .identifier) :
    (t.respell string).text = t.text.lower := by
  simp [respell, hkind]

theorem value_respell {n : Nat} (hkind : t.kind = .number) (hvalue : t.value = .ok n) :
    (t.respell string).value = .ok n := by
  have htoken : t.respell string =
      ⟨.number, .text (String.ofList (Nat.toDigits 10 n)), t.place, false⟩ := by
    rw [← Nat.toString_eq_ofList_toDigits, ← respell_number hkind hvalue, ← hkind]
    rfl
  rw [htoken]
  exact value_of_numeral (short_of_value hvalue) _ _

theorem respell_lexical (hkind : t.kind ∈ itemKinds) (hlexical : t.Lexical)
    (hnumber : t.kind = .number → ∃ n, t.value = .ok n) : (t.respell string).Lexical := by
  simp only [itemKinds, List.mem_cons, List.not_mem_nil, or_false] at hkind
  unfold Token.Lexical
  rw [respell_kind]
  rcases hkind with hkind | hkind | hkind
  · obtain ⟨s, hs⟩ := hlexical.exists_text hkind
    simp only [hkind, respell_string hkind hs, Atom.IsText]
  · obtain ⟨n, hn⟩ := hnumber hkind
    simp only [hkind, respell_number hkind hn, Atom.IsNumeral]
    rw [Nat.toString_eq_ofList_toDigits, String.toList_ofList]
    exact Text.isNumeral_toDigits n
  · simp only [hkind, respell_identifier hkind]
    exact (hlexical.identifier hkind).lower

end Token

namespace Statement

variable {strings : Nat → String → String}

theorem identifiers_lower {names : List Atom} (h : ∀ name ∈ names, name.IsIdentifier) :
    ∀ name ∈ names.map Atom.lower, name.IsIdentifier := by
  intro name hname
  obtain ⟨a, ha, rfl⟩ := List.mem_map.mp hname
  exact (h a ha).lower

mutual

/-- A printable statement stays regular. -/
theorem respell_regular : ∀ (s : Statement) (depth : Nat), s.Regular → s.Printable →
    (respell strings depth s).Regular
  | .assign .., _, hregular, _ => ⟨hregular.1.lower, hregular.2⟩
  | .increment .., _, hregular, _ => ⟨hregular.1.lower, hregular.2.lower⟩
  | .call .., _, hregular, hprintable =>
    ⟨hregular.1.lower, hprintable, identifiers_lower hregular.2.2⟩
  | .input targets, depth, hregular, _ => by
    obtain ⟨hne, htargets⟩ := hregular
    refine ⟨by simpa using hne, fun t ht => ?_⟩
    obtain ⟨u, hu, rfl⟩ := List.mem_map.mp ht
    obtain ⟨hkind, hlexical⟩ := htargets u hu
    obtain ⟨hitem, hnumber⟩ := targetKinds_subset hkind
    exact ⟨hkind, Token.respell_lexical hitem hlexical fun h => absurd h hnumber⟩
  | .output items, depth, hregular, _ => by
    obtain ⟨hne, hitems⟩ := hregular
    refine ⟨by simpa using hne, fun t ht => ?_⟩
    obtain ⟨u, hu, rfl⟩ := List.mem_map.mp ht
    obtain ⟨hkind, hlexical, hnumber⟩ := hitems u hu
    refine ⟨hkind, Token.respell_lexical hkind hlexical hnumber, fun h => ?_⟩
    obtain ⟨n, hn⟩ := hnumber h
    exact ⟨n, Token.value_respell h hn⟩
  | .loop _ body, depth, hregular, hprintable =>
    ⟨hregular.1.lower, respellAll_regular body (depth + 1) hregular.2 hprintable⟩
  | .define _ _ body, depth, hregular, hprintable =>
    ⟨hprintable.1, identifiers_lower hregular.2.1, hprintable.2.1,
      respellAll_regular body (depth + 1) hregular.2.2.2 hprintable.2.2⟩
  | .missing, _, hregular, _ | .token _, _, hregular, _ | .program _, _, hregular, _ =>
    hregular.elim

theorem respellAll_regular : ∀ (body : List Statement) (depth : Nat), RegularAll body →
    PrintableAll body → RegularAll (respellAll strings depth body)
  | [], _, _, _ => trivial
  | s :: rest, depth, hregular, hprintable =>
    ⟨respell_regular s depth hregular.1 hprintable.1,
      respellAll_regular rest depth hregular.2 hprintable.2⟩

end

mutual

/-- If every program that is registered stays a name in capitals and keeps its parameters apart in
small letters, the statements that enroll them are printable. -/
theorem enroll_printable : ∀ (s : Statement) {registry after : Registry}, s.Regular →
    enroll s registry = some after →
    (∀ d ∈ after, d.name.IsIdentifier ∧ d.name.upper.IsIdentifier ∧
      (d.params.map Atom.lower).Nodup) → s.Printable
  | .call target callee args, registry, after, hregular, h, hafter => by
    obtain ⟨d, hfind, _, rfl⟩ := enroll_call.mp h
    obtain ⟨hname, hupper, _⟩ := hafter d (List.mem_of_find?_eq_some hfind)
    have hkey : d.name.key = callee.key := by simpa using List.find?_some hfind
    rw [hname.key_inj hregular.2.1 hkey] at hupper
    exact hupper
  | .loop _ body, _, _, hregular, h, hafter => enrollAll_printable body hregular.2 h hafter
  | .define name params body, _, _, hregular, h, hafter => by
    obtain ⟨inner, hinner, _, rfl⟩ := enroll_define.mp h
    obtain ⟨_, hupper, hnodup⟩ := hafter ⟨name, params, body⟩ (by simp)
    exact ⟨hupper, hnodup, enrollAll_printable body hregular.2.2.2 hinner
      fun d hd => hafter d (by simp [hd])⟩
  | .assign .., _, _, _, _, _ | .increment .., _, _, _, _, _ | .input _, _, _, _, _, _
  | .output _, _, _, _, _, _ => trivial
  | .missing, _, _, hregular, _, _ | .token _, _, _, hregular, _, _
  | .program _, _, _, hregular, _, _ => hregular.elim

theorem enrollAll_printable : ∀ (body : List Statement) {registry after : Registry},
    RegularAll body → enrollAll body registry = some after →
    (∀ d ∈ after, d.name.IsIdentifier ∧ d.name.upper.IsIdentifier ∧
      (d.params.map Atom.lower).Nodup) → PrintableAll body
  | [], _, _, _, _, _ => trivial
  | s :: rest, _, _, hregular, h, hafter => by
    obtain ⟨next, hs, hrest⟩ := enrollAll_cons.mp h
    obtain ⟨more, rfl⟩ := enrollAll_extends rest hrest
    exact ⟨enroll_printable s hregular.1 hs fun d hd => hafter d (by simp [hd]),
      enrollAll_printable rest hregular.2 hrest hafter⟩

end

end Statement

/-- A token that is the same as one of two spellings is the same as the other if it is no literal or
the two agree on it. -/
theorem Token.same_respell {f g : String → String} {t u : Token}
    (hlexical : t.Lexical) (h : u.same (t.respell f) = true) :
    u.same (t.respell g) = true ↔ (t.kind = .string → f t.text.content = g t.text.content) := by
  simp only [Token.same, Bool.and_eq_true, decide_eq_true_eq] at h ⊢
  rw [h.2]
  have hsame : u.kind = t.kind := h.1
  by_cases hkind : t.kind = .string
  · obtain ⟨s, hs⟩ := hlexical.exists_text hkind
    rw [respell_string hkind hs, respell_string hkind hs, Atom.key_text, Atom.key_text, hs]
    simp [hsame, hkind, Atom.content]
  · have htext : (t.respell f).text = (t.respell g).text := by
      unfold respell
      dsimp only
      split <;> simp_all
    simp [hsame, hkind, htext]

namespace Statement

theorem sameTokens_respell {f g : String → String} {us items : List Token}
    (hitems : ∀ t ∈ items, t.Lexical)
    (h : sameTokens us (items.map (Token.respell f)) = true) :
    sameTokens us (items.map (Token.respell g)) = true ↔
      ∀ t ∈ items, t.kind = .string → f t.text.content = g t.text.content := by
  induction items generalizing us with
  | nil =>
    cases us with
    | nil => simp [sameTokens]
    | cons u us => simp [sameTokens] at h
  | cons t items ih =>
    cases us with
    | nil => simp [sameTokens] at h
    | cons u us =>
      simp only [List.map_cons, sameTokens, Bool.and_eq_true] at h ⊢
      rw [Token.same_respell (hitems t (by simp)) h.1,
        ih (fun v hv => hitems v (by simp [hv])) h.2]
      simp

mutual

/-- A statement that is the same as one of two spellings is the same as the other exactly if the two
agree on all literals. -/
theorem same_respell {f g : Nat → String → String} : ∀ (s s' : Statement) (depth : Nat),
    s.Regular → same s' (respell f depth s) = true →
      (same s' (respell g depth s) = true ↔
        s.Literals (fun depth text => f depth text = g depth text) depth)
  | .assign .., s', depth, _, h | .increment .., s', depth, _, h | .call .., s', depth, _, h => by
    simp only [respell, Literals, iff_true] at h ⊢
    exact h
  | .input targets, s', depth, hregular, h => by
    cases s' with
    | input us =>
      simp only [respell, same] at h ⊢
      exact sameTokens_respell (fun t ht => (hregular.2 t ht).2) h
    | _ => simp [respell, same] at h
  | .output items, s', depth, hregular, h => by
    cases s' with
    | output us =>
      simp only [respell, same] at h ⊢
      exact sameTokens_respell (fun t ht => (hregular.2 t ht).2.1) h
    | _ => simp [respell, same] at h
  | .loop count body, s', depth, hregular, h => by
    cases s' with
    | loop count' body' =>
      simp only [respell, same, Bool.and_eq_true] at h ⊢
      rw [sameBody_respell body body' (depth + 1) hregular.2 h.2]
      exact ⟨fun hall => hall.2, fun hbody => ⟨h.1, hbody⟩⟩
    | _ => simp [respell, same] at h
  | .define name params body, s', depth, hregular, h => by
    cases s' with
    | define name' params' body' =>
      simp only [respell, same, Bool.and_eq_true] at h ⊢
      rw [sameBody_respell body body' (depth + 1) hregular.2.2.2 h.2]
      exact ⟨fun hall => hall.2, fun hbody => ⟨h.1, hbody⟩⟩
    | _ => simp [respell, same] at h
  | .missing, _, _, hregular, _ | .token _, _, _, hregular, _ | .program _, _, _, hregular, _ =>
    hregular.elim

theorem sameBody_respell {f g : Nat → String → String} :
    ∀ (body body' : List Statement) (depth : Nat), RegularAll body →
      sameBody body' (respellAll f depth body) = true →
        (sameBody body' (respellAll g depth body) = true ↔
          LiteralsAll (fun depth text => f depth text = g depth text) depth body)
  | [], body', depth, _, h => by
    simp only [respellAll, LiteralsAll, iff_true] at h ⊢
    exact h
  | s :: rest, body', depth, hregular, h => by
    cases body' with
    | nil => simp [respellAll, sameBody] at h
    | cons s' rest' =>
      simp only [respellAll, sameBody, Bool.and_eq_true] at h ⊢
      rw [same_respell s s' depth hregular.1 h.1, sameBody_respell rest rest' depth hregular.2 h.2]
      rfl

end

end Statement

/-- The second registry has the programs of the first one, their names in capitals. -/
def Registry.Capitals (registry other : Registry) : Prop :=
  other.map (fun d => (d.name.key, d.params.length)) =
    registry.map fun d => (d.name.upper.key, d.params.length)

namespace Registry.Capitals

theorem find?_some {registry other : Registry} (h : Capitals registry other)
    (hnames : ∀ d ∈ registry, d.name.IsIdentifier)
    (hdistinct : (registry.map (·.name.upper.key)).Nodup) {callee callee' : Atom}
    (hcallee : callee.IsIdentifier) (hkey : callee'.key = callee.upper.key) {d : Definition}
    (hfind : registry.find? callee = some d) :
    ∃ d', other.find? callee' = some d' ∧ d'.params.length = d.params.length := by
  induction registry generalizing other with
  | nil => cases hfind
  | cons first registry ih =>
    obtain ⟨first', others, rfl, hfirst, hothers⟩ := List.map_eq_cons_iff.mp h
    have hname : first'.name.key = first.name.upper.key := congrArg Prod.fst hfirst
    have hdistinct' := List.nodup_cons.mp hdistinct
    simp only [Registry.find?, List.find?_cons] at hfind
    by_cases hsame : first.name.key = callee.key
    · -- The name is found at once, and so are its capitals.
      simp only [hsame, decide_true] at hfind
      cases hfind
      have hcapital : first'.name.key = callee'.key := by
        rw [hname, hkey, (hnames d (by simp)).key_inj hcallee hsame]
      exact ⟨first', by simp [Registry.find?, hcapital], congrArg Prod.snd hfirst⟩
    · simp only [hsame, decide_false] at hfind
      have hcapital : first'.name.key ≠ callee'.key := by
        intro hcapital
        have hd := List.mem_of_find?_eq_some hfind
        have hdname : d.name = callee := by
          have hdkey := List.find?_some hfind
          exact (hnames d (by simp [hd])).key_inj hcallee (by simpa using hdkey)
        refine hdistinct'.1 (List.mem_map.mpr ⟨d, hd, ?_⟩)
        rw [hdname, ← hkey, ← hcapital, hname]
      obtain ⟨d', hd', hlength⟩ :=
        ih hothers (fun e he => hnames e (by simp [he])) hdistinct'.2 hfind
      refine ⟨d', ?_, hlength⟩
      rw [Registry.find?, List.find?_cons_of_neg (by simpa using hcapital)]
      exact hd'

theorem find?_none {registry other : Registry} (h : Capitals registry other) {name name' : Atom}
    (hkey : name'.key = name.upper.key) (hnew : name.upper.key ∉ registry.map (·.name.upper.key)) :
    other.find? name' = none := by
  have hkeys : other.map (·.name.key) = registry.map (·.name.upper.key) := by
    have hfst := congrArg (List.map Prod.fst) h
    rw [List.map_map, List.map_map] at hfst
    exact hfst
  rw [Registry.find?, List.find?_eq_none]
  intro d hd hsame
  refine hnew ?_
  rw [← hkeys, ← hkey]
  exact List.mem_map.mpr ⟨d, hd, by simpa using hsame⟩

end Registry.Capitals

namespace Statement

variable {strings : Nat → String → String}

mutual

/-- Where no two programs have the same name in capitals, a statement enrolls in any spelling. -/
theorem enroll_of_same : ∀ (s s' : Statement) (depth : Nat) {registry other after : Registry},
    s.Regular → same s' (respell strings depth s) = true → registry.Capitals other →
    enroll s registry = some after → (∀ d ∈ after, d.name.IsIdentifier) →
    (after.map (·.name.upper.key)).Nodup →
      ∃ after', enroll s' other = some after' ∧ after.Capitals after'
  | .call target callee args, s', depth, registry, other, after, hregular, h, hcapitals, henroll,
      hnames, hdistinct => by
    obtain ⟨d, hfind, hlength, rfl⟩ := enroll_call.mp henroll
    cases s' with
    | call target' callee' args' =>
      simp only [respell, same, Bool.and_eq_true, decide_eq_true_eq] at h
      obtain ⟨d', hfind', hlength'⟩ :=
        hcapitals.find?_some hnames hdistinct hregular.2.1 h.1.2 hfind
      have hargs : args'.length = args.length := by simpa using congrArg List.length h.2
      exact ⟨other, enroll_call.mpr ⟨d', hfind', by omega, rfl⟩, hcapitals⟩
    | _ => simp [respell, same] at h
  | .loop _ body, s', depth, registry, other, after, hregular, h, hcapitals, henroll, hnames,
      hdistinct => by
    cases s' with
    | loop count' body' =>
      simp only [respell, same, Bool.and_eq_true] at h
      exact enrollAll_of_same body body' (depth + 1) hregular.2 h.2 hcapitals henroll hnames
        hdistinct
    | _ => simp [respell, same] at h
  | .define name params body, s', depth, registry, other, after, hregular, h, hcapitals, henroll,
      hnames, hdistinct => by
    obtain ⟨inner, hinner, hnew, rfl⟩ := enroll_define.mp henroll
    cases s' with
    | define name' params' body' =>
      simp only [respell, same, Bool.and_eq_true, decide_eq_true_eq] at h
      rw [List.map_append, List.nodup_append] at hdistinct
      obtain ⟨hinnerDistinct, _, hapart⟩ := hdistinct
      obtain ⟨inner', hinner', hcapitals'⟩ := enrollAll_of_same body body' (depth + 1)
        hregular.2.2.2 h.2 hcapitals hinner (fun d hd => hnames d (by simp [hd])) hinnerDistinct
      have hnone : inner'.find? name' = none :=
        hcapitals'.find?_none h.1.1 fun hmem => hapart _ hmem _ (by simp) rfl
      refine ⟨_, enroll_define.mpr ⟨inner', hinner', hnone, rfl⟩, ?_⟩
      have hparams : params'.length = params.length := by simpa using congrArg List.length h.1.2
      unfold Registry.Capitals at hcapitals' ⊢
      rw [List.map_append, List.map_append, hcapitals']
      simp [h.1.1, hparams]
    | _ => simp [respell, same] at h
  | .assign .., s', _, _, other, _, _, h, hcapitals, henroll, _, _
  | .increment .., s', _, _, other, _, _, h, hcapitals, henroll, _, _
  | .input _, s', _, _, other, _, _, h, hcapitals, henroll, _, _
  | .output _, s', _, _, other, _, _, h, hcapitals, henroll, _, _ => by
    cases henroll
    refine ⟨other, ?_, hcapitals⟩
    cases s' <;> first | rfl | simp [respell, same] at h
  | .missing, _, _, _, _, _, hregular, _, _, _, _, _ | .token _, _, _, _, _, _, hregular, _, _, _, _, _
  | .program _, _, _, _, _, _, hregular, _, _, _, _, _ => hregular.elim

theorem enrollAll_of_same : ∀ (body body' : List Statement) (depth : Nat)
    {registry other after : Registry}, RegularAll body →
    sameBody body' (respellAll strings depth body) = true → registry.Capitals other →
    enrollAll body registry = some after → (∀ d ∈ after, d.name.IsIdentifier) →
    (after.map (·.name.upper.key)).Nodup →
      ∃ after', enrollAll body' other = some after' ∧ after.Capitals after'
  | [], body', _, _, other, _, _, h, hcapitals, henroll, _, _ => by
    cases henroll
    cases body' with
    | nil => exact ⟨other, rfl, hcapitals⟩
    | cons => simp [respellAll, sameBody] at h
  | s :: rest, body', depth, _, other, _, hregular, h, hcapitals, henroll, hnames, hdistinct => by
    obtain ⟨next, hs, hrest⟩ := enrollAll_cons.mp henroll
    obtain ⟨more, rfl⟩ := enrollAll_extends rest hrest
    cases body' with
    | nil => simp [respellAll, sameBody] at h
    | cons s' rest' =>
      simp only [respellAll, sameBody, Bool.and_eq_true] at h
      have hnext : (next.map (·.name.upper.key)).Nodup := by
        rw [List.map_append] at hdistinct
        exact (List.nodup_append.mp hdistinct).1
      obtain ⟨next', hs', hcapitals'⟩ := enroll_of_same s s' depth hregular.1 h.1 hcapitals hs
        (fun d hd => hnames d (by simp [hd])) hnext
      obtain ⟨after', hrest', hcapitals''⟩ :=
        enrollAll_of_same rest rest' depth hregular.2 h.2 hcapitals' hrest hnames hdistinct
      exact ⟨after', enrollAll_cons.mpr ⟨next', hs', hrest'⟩, hcapitals''⟩

end

end Statement

end LoopLanguage
