import LoopLanguage.Proofs.Enrollment
import LoopLanguage.Proofs.Scanning

/-!
The grammar of LOOP over tokens, said without a parser. A statement is a row of tokens; some of
them are *inner* tokens, which are neither the first token of a statement nor a semicolon nor an
`END`. Whether a token opens a line counts in two places only: such a token may end the statement
before it, and a list of items stays on its line.
-/

namespace LoopLanguage

/-- Names between commas, at least one, and the closing parenthesis. -/
inductive Names : List Token → List Atom → Prop
  | last {name close : Token} (hname : name.kind = .identifier)
      (hclose : close.kind = .rightParen) : Names [name, close] [name.text]
  | more {name comma : Token} {ts : List Token} {names : List Atom}
      (hname : name.kind = .identifier) (hcomma : comma.kind = .comma) (rest : Names ts names) :
      Names (name :: comma :: ts) (name.text :: names)

theorem Names.head {ts : List Token} {names : List Atom} (h : Names ts names) :
    ∃ t us, ts = t :: us ∧ t.kind = .identifier := by
  cases h with
  | last hname _ => exact ⟨_, _, rfl, hname⟩
  | more hname _ _ => exact ⟨_, _, rfl, hname⟩

inductive NameList : List Token → List Atom → Prop
  | none {close : Token} (hclose : close.kind = .rightParen) : NameList [close] []
  | some {ts : List Token} {names : List Atom} (h : Names ts names) : NameList ts names

/-- The items after the first one, on the same line, with their commas; a comma may come last. -/
inductive Items (kinds : List Kind) : List Token → List Token → Prop
  | done : Items kinds [] []
  | trailing {comma : Token} (hcomma : comma.kind = .comma) (hline : comma.lineStart = false) :
      Items kinds [comma] []
  | more {comma item : Token} {ts items : List Token} (hcomma : comma.kind = .comma)
      (hline : comma.lineStart = false) (hitem : item.kind ∈ kinds)
      (hitemLine : item.lineStart = false) (rest : Items kinds ts items) :
      Items kinds (comma :: item :: ts) (item :: items)

inductive ItemList (kinds : List Kind) : List Token → List Token → Prop
  | mk {first : Token} {ts items : List Token} (hfirst : first.kind ∈ kinds)
      (rest : Items kinds ts items) : ItemList kinds (first :: ts) (first :: items)

theorem NameList.kind_mem {ts : List Token} {names : List Atom} (h : NameList ts names) :
    ∀ t ∈ ts, t.kind ∈ [Kind.identifier, .comma, .rightParen] := by
  cases h with
  | none hclose => simp [hclose]
  | some h =>
    induction h with
    | last hname hclose => simp [hname, hclose]
    | more hname hcomma _ ih => simpa [hname, hcomma] using ih

theorem Items.comma_or_item {kinds : List Kind} {ts items : List Token}
    (h : Items kinds ts items) : ∀ t ∈ ts, t.kind = .comma ∨ t ∈ items ∧ t.kind ∈ kinds := by
  induction h with
  | done => simp
  | trailing hcomma _ => simp [hcomma]
  | more hcomma _ hitem _ _ ih =>
    rintro t (_ | ⟨_, _ | ⟨_, ht⟩⟩)
    · exact .inl hcomma
    · exact .inr ⟨by simp, hitem⟩
    · exact (ih t ht).imp id fun hmem => ⟨by simp [hmem.1], hmem.2⟩

/-- A list is made of commas and its items. -/
theorem ItemList.comma_or_item {kinds : List Kind} {ts items : List Token}
    (h : ItemList kinds ts items) :
    ∀ t ∈ ts, t.kind = .comma ∨ t ∈ items ∧ t.kind ∈ kinds := by
  cases h with
  | mk hfirst rest =>
    rintro t (_ | ⟨_, ht⟩)
    · exact .inr ⟨by simp, hfirst⟩
    · exact (rest.comma_or_item t ht).imp id fun hmem => ⟨by simp [hmem.1], hmem.2⟩

/-- A token that can stand after a statement: a semicolon, `END`, the end, or whatever opens a
line. -/
def Token.Ends (t : Token) : Prop :=
  t.kind = .semicolon ∨ t.lineStart = true ∨ t.kind = .kwEnd ∨ t.kind = .eof

/-- Nothing, or `DO`. -/
inductive MaybeDo : List Token → Prop
  | absent : MaybeDo []
  | present {word : Token} (h : word.kind = .kwDo) : MaybeDo [word]

/-- The kinds of items that `INPUT` takes. -/
def targetKinds : List Kind := [.string, .identifier]

/-- The kinds of items that `OUTPUT` takes. -/
def itemKinds : List Kind := [.string, .number, .identifier]

theorem targetKinds_subset {kind : Kind} (h : kind ∈ targetKinds) :
    kind ∈ itemKinds ∧ kind ≠ .number := by
  simp only [targetKinds, List.mem_cons, List.not_mem_nil, or_false] at h
  rcases h with rfl | rfl <;> decide

/-- A token that is no further item of a list. -/
def ItemsEnd (kinds : List Kind) (next : Token) : Prop :=
  (next.kind = .comma → next.lineStart = true) ∧ (next.kind ∈ kinds → next.lineStart = true)

theorem Token.Ends.itemsEnd {kinds : List Kind} (hkinds : ∀ kind ∈ kinds, kind ∈ itemKinds)
    {next : Token} (hnext : next.Ends) : ItemsEnd kinds next := by
  rcases hnext with hkind | hline | hkind | hkind
  · exact ⟨by simp [hkind], fun hmem => by simpa [hkind, itemKinds] using hkinds _ hmem⟩
  · exact ⟨fun _ => hline, fun _ => hline⟩
  · exact ⟨by simp [hkind], fun hmem => by simpa [hkind, itemKinds] using hkinds _ hmem⟩
  · exact ⟨by simp [hkind], fun hmem => by simpa [hkind, itemKinds] using hkinds _ hmem⟩

mutual

/-- `Sentence ts inner s`: the tokens `ts` are the statement `s`, and `inner` are those of them that
are inner tokens. -/
inductive Sentence : List Token → List Token → Statement → Prop
  | assign {target sign number : Token} {value : Nat} (htarget : target.kind = .identifier)
      (hsign : sign.kind = .assign) (hnumber : number.kind = .number)
      (hvalue : number.value = .ok value) :
      Sentence [target, sign, number] [sign, number] (.assign target.text value)
  | increment {target sign operand plus one : Token} (htarget : target.kind = .identifier)
      (hsign : sign.kind = .assign) (hoperand : operand.kind = .identifier)
      (hplus : plus.kind = .plus) (hone : one.kind = .number) (hvalue : one.value = .ok 1) :
      Sentence [target, sign, operand, plus, one] [sign, operand, plus, one]
        (.increment target.text operand.text)
  | call {target sign callee left : Token} {ts : List Token} {args : List Atom}
      (htarget : target.kind = .identifier) (hsign : sign.kind = .assign)
      (hcallee : callee.kind = .identifier) (hleft : left.kind = .leftParen)
      (hargs : NameList ts args) :
      Sentence (target :: sign :: callee :: left :: ts) (sign :: callee :: left :: ts)
        (.call target.text callee.text args)
  | input {word : Token} {ts targets : List Token} (hword : word.kind = .kwInput)
      (htargets : ItemList targetKinds ts targets) : Sentence (word :: ts) ts (.input targets)
  | output {word : Token} {ts items : List Token} (hword : word.kind = .kwPrint)
      (hitems : ItemList itemKinds ts items) (hnumbers : Parser.checkNumbers items = .ok ()) :
      Sentence (word :: ts) ts (.output items)
  | loop {word count : Token} {opening ts inner : List Token} {body : List Statement}
      (hword : word.kind = .kwLoop) (hcount : count.kind = .identifier)
      (hopening : MaybeDo opening) (hbody : Sentences .kwEnd ts inner body) :
      Sentence (word :: count :: (opening ++ ts)) (count :: (opening ++ inner))
        (.loop count.text body)
  | define {word name left opening : Token} {ts us inner : List Token} {params : List Atom}
      {body : List Statement} (hword : word.kind = .kwProgram) (hname : name.kind = .identifier)
      (hleft : left.kind = .leftParen) (hparams : NameList ts params) (hnodup : params.Nodup)
      (hopening : opening.kind = .kwDo) (hbody : Sentences .kwEnd us inner body) :
      Sentence (word :: name :: left :: (ts ++ opening :: us))
        (name :: left :: (ts ++ opening :: inner)) (.define name.text params body)

/-- `Sentences close ts inner body`: the tokens `ts` are the statements `body` and the token of kind
`close` that closes them, and `inner` are the inner tokens. -/
inductive Sentences : Kind → List Token → List Token → List Statement → Prop
  | close {close : Kind} {t : Token} (h : t.kind = close) : Sentences close [t] [] []
  | semicolon {close : Kind} {t : Token} {ts inner : List Token} {body : List Statement}
      (h : t.kind = .semicolon) (rest : Sentences close ts inner body) :
      Sentences close (t :: ts) inner body
  | cons {close : Kind} {next : Token} {ts us inner inners : List Token} {s : Statement}
      {body : List Statement} (first : Sentence ts inner s) (hnext : next.Ends)
      (rest : Sentences close (next :: us) inners body) :
      Sentences close (ts ++ next :: us) (inner ++ inners) (s :: body)

end

/-- The kinds of tokens that a sentence starts with. -/
def sentenceStarts : List Kind := [.identifier, .kwInput, .kwPrint, .kwLoop, .kwProgram]

theorem Sentence.exists_cons {ts inner : List Token} {s : Statement} (h : Sentence ts inner s) :
    ∃ t us, ts = t :: us ∧ t.kind ∈ sentenceStarts := by
  cases h with
  | assign htarget => exact ⟨_, _, rfl, by simp [htarget, sentenceStarts]⟩
  | increment htarget => exact ⟨_, _, rfl, by simp [htarget, sentenceStarts]⟩
  | call htarget => exact ⟨_, _, rfl, by simp [htarget, sentenceStarts]⟩
  | input hword => exact ⟨_, _, rfl, by simp [hword, sentenceStarts]⟩
  | output hword => exact ⟨_, _, rfl, by simp [hword, sentenceStarts]⟩
  | loop hword => exact ⟨_, _, rfl, by simp [hword, sentenceStarts]⟩
  | define hword => exact ⟨_, _, rfl, by simp [hword, sentenceStarts]⟩

/-- All tokens are semicolons. -/
def Semicolons (ts : List Token) : Prop := ∀ t ∈ ts, t.kind = .semicolon

namespace Sentences

variable {close : Kind} {ts inner : List Token} {body : List Statement}

theorem semicolons {semis : List Token} (hsemis : Semicolons semis)
    (h : Sentences close ts inner body) : Sentences close (semis ++ ts) inner body := by
  induction semis with
  | nil => exact h
  | cons t semis ih =>
    exact .semicolon (hsemis t (by simp)) (ih fun u hu => hsemis u (by simp [hu]))

/-- What sentences start with: the token that closes, a semicolon, or the start of a sentence. -/
theorem head (h : Sentences close ts inner body) :
    ∃ t us, ts = t :: us ∧ t.kind ∈ close :: .semicolon :: sentenceStarts := by
  cases h with
  | close ht => exact ⟨_, _, rfl, by simp [ht]⟩
  | semicolon ht => exact ⟨_, _, rfl, by simp [ht]⟩
  | cons first =>
    obtain ⟨t, rest, rfl, ht⟩ := first.exists_cons
    exact ⟨t, _, rfl, List.mem_cons_of_mem _ (List.mem_cons_of_mem _ ht)⟩

/-- Behind leading semicolons stands the token that closes or the first sentence. -/
theorem unroll : ∀ {close : Kind} {ts inner : List Token} {body : List Statement},
    Sentences close ts inner body → ∃ semis, Semicolons semis ∧
      ((∃ t, ts = semis ++ [t] ∧ t.kind = close ∧ inner = [] ∧ body = []) ∨
        ∃ first firstInner s next us inners rest,
          ts = semis ++ (first ++ next :: us) ∧ Sentence first firstInner s ∧ next.Ends ∧
          Sentences close (next :: us) inners rest ∧ inner = firstInner ++ inners ∧
          body = s :: rest)
  | _, _, _, _, .close h => ⟨[], by simp [Semicolons], .inl ⟨_, rfl, h, rfl, rfl⟩⟩
  | _, _, _, _, .semicolon (t := t) h rest => by
    obtain ⟨semis, hsemis, hcases⟩ := unroll rest
    have hall : Semicolons (t :: semis) := by
      rintro u (_ | ⟨_, hu⟩)
      · exact h
      · exact hsemis u hu
    refine ⟨t :: semis, hall, ?_⟩
    rcases hcases with ⟨last, rfl, hlast⟩ | ⟨first, firstInner, s, next, us, inners, more, rfl, hmore⟩
    · exact .inl ⟨last, rfl, hlast⟩
    · exact .inr ⟨first, firstInner, s, next, us, inners, more, rfl, hmore⟩
  | _, _, _, _, .cons first hnext rest =>
    ⟨[], by simp [Semicolons], .inr ⟨_, _, _, _, _, _, _, rfl, first, hnext, rest, rfl, rfl⟩⟩

/-- The last token is the one that closes. -/
theorem exists_close : ∀ {close : Kind} {ts inner : List Token} {body : List Statement},
    Sentences close ts inner body → ∃ us t, ts = us ++ [t] ∧ t.kind = close
  | _, _, _, _, .close (t := t) h => ⟨[], t, rfl, h⟩
  | _, _, _, _, .semicolon (t := t) _ rest => by
    obtain ⟨us, last, rfl, hlast⟩ := exists_close rest
    exact ⟨t :: us, last, rfl, hlast⟩
  | _, _, _, _, .cons _ _ rest => by
    obtain ⟨us, last, hus, hlast⟩ := exists_close rest
    rw [hus, ← List.append_assoc]
    exact ⟨_, last, rfl, hlast⟩

/-- A leading semicolon says nothing. -/
theorem tail (hclose : close ≠ .semicolon) {t : Token} (ht : t.kind = .semicolon)
    (h : Sentences close (t :: ts) inner body) : Sentences close ts inner body := by
  obtain ⟨semis, hsemis, hcases⟩ := h.unroll
  cases semis with
  | nil =>
    rcases hcases with ⟨last, hts, hlast, _⟩ | ⟨first, firstInner, s, next, us, _, _, hts, hfirst, _⟩
    · cases hts
      exact absurd (hlast.symm.trans ht) hclose
    · obtain ⟨u, vs, rfl, hu⟩ := hfirst.exists_cons
      cases hts
      simp [ht, sentenceStarts] at hu
  | cons semi semis =>
    have hrest : Semicolons semis := fun u hu => hsemis u (by simp [hu])
    rcases hcases with ⟨last, hts, hlast, rfl, rfl⟩ |
      ⟨first, firstInner, s, next, us, inners, more, hts, hfirst, hends, hmore, rfl, rfl⟩
    · cases hts
      exact .semicolons hrest (.close hlast)
    · cases hts
      exact .semicolons hrest (.cons hfirst hends hmore)

end Sentences

end LoopLanguage
