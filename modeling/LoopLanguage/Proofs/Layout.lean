import Mathlib
import LoopLanguage.Proofs.DescentComplete
import LoopLanguage.Proofs.PhrasesComplete
import LoopLanguage.Proofs.Unambiguous

/-!
Line breaks. One parser drops them and marks the tokens that open a line; for the other one a line
break is a semicolon, and no token is marked. A row of tokens is read alike in both forms exactly
if no line is opened inside a statement, that is by an inner token.
-/

namespace LoopLanguage

/-- The token as it is inside a line. -/
def Token.inside (t : Token) : Token := { t with lineStart := false }

theorem Token.inside_eq_self {t : Token} (h : t.lineStart = false) : t.inside = t := by
  cases t
  cases h
  rfl

/-- `Lines opens ts us`: the tokens `us` are `ts` with a semicolon for every line break and no token
that opens a line; `opens` is whether a line break came just before. -/
inductive Lines : Bool → List Token → List Token → Prop
  | nil {opens : Bool} : Lines opens [] []
  | newline {opens : Bool} {semi t : Token} {ts us : List Token} (hsemi : semi.kind = .semicolon)
      (rest : Lines true (t :: ts) us) : Lines opens (t :: ts) (semi :: us)
  | token {opens : Bool} {t : Token} {ts us : List Token} (hline : t.lineStart = opens)
      (rest : Lines false ts us) : Lines opens (t :: ts) (t.inside :: us)

namespace Lines

variable {opens : Bool} {t u next : Token} {ts us row rest : List Token}

/-- The first token after a line break opens a line. -/
theorem lineStart (h : Lines opens (t :: ts) us) (hopens : opens = true) : t.lineStart = true := by
  generalize hcons : t :: ts = all at h
  induction h with
  | nil => cases hcons
  | newline _ _ ih => exact ih rfl hcons
  | token hline _ _ =>
    cases hcons
    exact hline.trans hopens

/-- Before a token stand the semicolons of line breaks. -/
theorem strip (h : Lines opens (t :: ts) us) :
    ∃ semis vs, us = semis ++ t.inside :: vs ∧ Semicolons semis ∧ Lines false ts vs := by
  generalize hcons : t :: ts = all at h
  induction h with
  | nil => cases hcons
  | @newline _ semi _ _ _ hsemi _ ih =>
    obtain ⟨semis, vs, rfl, hsemis, hrest⟩ := ih hcons
    refine ⟨semi :: semis, vs, rfl, ?_, hrest⟩
    rintro v (_ | ⟨_, hv⟩)
    · exact hsemi
    · exact hsemis v hv
  | token _ hrest _ =>
    cases hcons
    exact ⟨[], _, rfl, by simp [Semicolons], hrest⟩

/-- No line break stands before tokens that open no line. -/
theorem row_of_lineStart (hrow : ∀ t ∈ row, t.lineStart = false) (h : Lines false (row ++ ts) us) :
    ∃ vs, us = row ++ vs ∧ Lines false ts vs := by
  induction row generalizing us with
  | nil => exact ⟨us, rfl, h⟩
  | cons t row ih =>
    have ht : t.lineStart = false := hrow t (by simp)
    cases h with
    | newline _ hrest =>
      have hline := hrest.lineStart rfl
      rw [ht] at hline
      cases hline
    | token _ hrest =>
      obtain ⟨vs, rfl, hvs⟩ := ih (fun u hu => hrow u (by simp [hu])) hrest
      exact ⟨vs, by rw [Token.inside_eq_self ht]; rfl, hvs⟩

/-- Without semicolons there are no line breaks. -/
theorem row_of_kind (hrow : ∀ u ∈ row, u.kind ≠ .semicolon) (h : Lines false ts (row ++ rest)) :
    ∃ vs, ts = row ++ vs ∧ Lines false vs rest ∧ ∀ u ∈ row, u.lineStart = false := by
  induction row generalizing ts with
  | nil => exact ⟨ts, rfl, h, by simp⟩
  | cons u row ih =>
    cases h with
    | newline hsemi _ => exact absurd hsemi (hrow u (by simp))
    | @token _ t ts _ hline hrest =>
      obtain ⟨vs, rfl, hvs, hall⟩ := ih (fun v hv => hrow v (by simp [hv])) hrest
      rw [Token.inside_eq_self hline]
      refine ⟨vs, rfl, hvs, ?_⟩
      rintro v (_ | ⟨_, hv⟩)
      · exact hline
      · exact hall v hv

theorem head_of_ne_semicolon (hu : u.kind ≠ .semicolon) (h : Lines opens ts (u :: us)) :
    ∃ t vs, ts = t :: vs ∧ u = t.inside ∧ Lines false vs us := by
  cases h with
  | newline hsemi _ => exact absurd hsemi hu
  | token _ hrest => exact ⟨_, _, rfl, rfl, hrest⟩

/-- A token that ends a statement does so in both forms. -/
theorem ends (h : Lines false (next :: ts) us) (hnext : next.Ends) :
    ∃ v vs, us = v :: vs ∧ v.Ends := by
  cases h with
  | newline hsemi _ => exact ⟨_, _, rfl, .inl hsemi⟩
  | token hline _ =>
    refine ⟨_, _, rfl, ?_⟩
    rcases hnext with hkind | hstart | hkind | hkind
    · exact .inl hkind
    · rw [hline] at hstart
      cases hstart
    · exact .inr (.inr (.inl hkind))
    · exact .inr (.inr (.inr hkind))

theorem ends_of (h : Lines false (t :: ts) (next :: us)) (hnext : next.Ends) : t.Ends := by
  cases h with
  | newline _ hrest => exact .inr (.inl (hrest.lineStart rfl))
  | token _ _ =>
    rcases hnext with hkind | hstart | hkind | hkind
    · exact .inl hkind
    · cases hstart
    · exact .inr (.inr (.inl hkind))
    · exact .inr (.inr (.inr hkind))

end Lines

theorem NameList.ne_semicolon {ts : List Token} {names : List Atom} (h : NameList ts names) :
    ∀ t ∈ ts, t.kind ≠ .semicolon := by
  intro t ht hkind
  have hmem := h.kind_mem t ht
  simp [hkind] at hmem

theorem ItemList.ne_semicolon {kinds : List Kind} (hkinds : .semicolon ∉ kinds)
    {ts items : List Token} (h : ItemList kinds ts items) : ∀ t ∈ ts, t.kind ≠ .semicolon := by
  intro t ht hkind
  obtain hcomma | ⟨_, hmem⟩ := h.comma_or_item t ht
  · simp [hkind] at hcomma
  · exact hkinds (hkind ▸ hmem)

mutual

/-- Semicolons are no inner tokens. -/
theorem Sentence.inner_ne_semicolon : ∀ {ts inner : List Token} {s : Statement},
    Sentence ts inner s → ∀ t ∈ inner, t.kind ≠ .semicolon
  | _, _, _, .assign _ hsign hnumber _ => by simp [hsign, hnumber]
  | _, _, _, .increment _ hsign hoperand hplus hone _ => by simp [hsign, hoperand, hplus, hone]
  | _, _, _, .call _ hsign hcallee hleft hargs => by
    simpa [hsign, hcallee, hleft] using hargs.ne_semicolon
  | _, _, _, .input _ htargets => htargets.ne_semicolon (by simp [targetKinds])
  | _, _, _, .output _ hitems _ => hitems.ne_semicolon (by simp [itemKinds])
  | _, _, _, .loop _ hcount hopening hbody => by
    have hinner := hbody.inner_ne_semicolon
    cases hopening with
    | absent => simpa [hcount] using hinner
    | present hdo => simpa [hcount, hdo] using hinner
  | _, _, _, .define _ hname hleft hparams _ hopening hbody => by
    have hinner := hbody.inner_ne_semicolon
    have hnames := hparams.ne_semicolon
    simp only [List.mem_cons, List.mem_append]
    rintro t (rfl | rfl | ht | rfl | ht)
    · simp [hname]
    · simp [hleft]
    · exact hnames t ht
    · simp [hopening]
    · exact hinner t ht

theorem Sentences.inner_ne_semicolon : ∀ {close : Kind} {ts inner : List Token}
    {body : List Statement}, Sentences close ts inner body → ∀ t ∈ inner, t.kind ≠ .semicolon
  | _, _, _, _, .close _ => by simp
  | _, _, _, _, .semicolon _ rest => rest.inner_ne_semicolon
  | _, _, _, _, .cons first _ rest => by
    intro t ht
    rcases List.mem_append.mp ht with ht | ht
    · exact first.inner_ne_semicolon t ht
    · exact rest.inner_ne_semicolon t ht

end

mutual

/-- A sentence that opens no line inside is a sentence with line breaks as semicolons. -/
theorem Sentence.flatten : ∀ {t : Token} {ts inner : List Token} {s : Statement},
    Sentence (t :: ts) inner s → (∀ u ∈ inner, u.lineStart = false) →
    ∀ {rest us : List Token}, Lines false (ts ++ rest) us →
    ∃ vs rest', us = vs ++ rest' ∧ Lines false rest rest' ∧ Sentence (t.inside :: vs) inner s
  | _, _, _, _, .assign htarget hsign hnumber hvalue, hinner, _, _, hlines => by
    obtain ⟨rest', rfl, hrest⟩ := hlines.row_of_lineStart hinner
    exact ⟨_, rest', rfl, hrest, .assign htarget hsign hnumber hvalue⟩
  | _, _, _, _, .increment htarget hsign hoperand hplus hone hvalue, hinner, _, _, hlines => by
    obtain ⟨rest', rfl, hrest⟩ := hlines.row_of_lineStart hinner
    exact ⟨_, rest', rfl, hrest, .increment htarget hsign hoperand hplus hone hvalue⟩
  | _, _, _, _, .call htarget hsign hcallee hleft hargs, hinner, _, _, hlines => by
    obtain ⟨rest', rfl, hrest⟩ := hlines.row_of_lineStart hinner
    exact ⟨_, rest', rfl, hrest, .call htarget hsign hcallee hleft hargs⟩
  | _, _, _, _, .input hword htargets, hinner, _, _, hlines => by
    obtain ⟨rest', rfl, hrest⟩ := hlines.row_of_lineStart hinner
    exact ⟨_, rest', rfl, hrest, .input hword htargets⟩
  | _, _, _, _, .output hword hitems hnumbers, hinner, _, _, hlines => by
    obtain ⟨rest', rfl, hrest⟩ := hlines.row_of_lineStart hinner
    exact ⟨_, rest', rfl, hrest, .output hword hitems hnumbers⟩
  | _, _, _, _, @Sentence.loop word count opening ts inner body hword hcount hopening hbody,
      hinner, rest, us, hlines => by
    have hrow : ∀ u ∈ count :: opening, u.lineStart = false :=
      fun u hu => hinner u (by rw [← List.cons_append]; exact List.mem_append_left _ hu)
    have hlines : Lines false ((count :: opening) ++ (ts ++ rest)) us := by simpa using hlines
    obtain ⟨vs, rfl, hvs⟩ := hlines.row_of_lineStart hrow
    obtain ⟨ws, rest', rfl, hrest, hws⟩ :=
      hbody.flatten (fun u hu => hinner u (by simp [hu])) hvs
    exact ⟨count :: (opening ++ ws), rest', by simp, hrest, .loop hword hcount hopening hws⟩
  | _, _, _, _, @Sentence.define word name left opening ps ts inner params body hword hname hleft
      hparams hnodup hopening hbody, hinner, rest, us, hlines => by
    have hrow : ∀ u ∈ name :: left :: (ps ++ [opening]), u.lineStart = false := by
      intro u hu
      refine hinner u ?_
      simp only [List.mem_cons, List.mem_append, List.not_mem_nil, or_false] at hu ⊢
      grind
    have hlines : Lines false (name :: left :: (ps ++ [opening]) ++ (ts ++ rest)) us := by
      simpa using hlines
    obtain ⟨vs, rfl, hvs⟩ := hlines.row_of_lineStart hrow
    obtain ⟨ws, rest', rfl, hrest, hws⟩ :=
      hbody.flatten (fun u hu => hinner u (by simp [hu])) hvs
    exact ⟨name :: left :: (ps ++ opening :: ws), rest', by simp, hrest,
      .define hword hname hleft hparams hnodup hopening hws⟩

theorem Sentences.flatten : ∀ {close : Kind} {ts inner : List Token} {body : List Statement},
    Sentences close ts inner body → (∀ u ∈ inner, u.lineStart = false) →
    ∀ {opens : Bool} {rest us : List Token}, Lines opens (ts ++ rest) us →
    ∃ vs rest', us = vs ++ rest' ∧ Lines false rest rest' ∧ Sentences close vs inner body
  | _, _, _, _, .close (t := t) h, _, _, _, _, hlines => by
    obtain ⟨semis, vs, rfl, hsemis, hrest⟩ := hlines.strip
    exact ⟨semis ++ [t.inside], vs, by simp, hrest, .semicolons hsemis (.close h)⟩
  | _, _, _, _, .semicolon (t := t) h body, hinner, _, _, _, hlines => by
    obtain ⟨semis, vs, rfl, hsemis, hvs⟩ := hlines.strip
    obtain ⟨ws, rest', rfl, hrest, hbody⟩ := body.flatten hinner hvs
    exact ⟨semis ++ t.inside :: ws, rest', by simp, hrest,
      .semicolons hsemis (.semicolon h hbody)⟩
  | _, _, _, _, @Sentences.cons _ next ts us inner inners s body first hnext more, hinner, opens,
      rest, all, hlines => by
    obtain ⟨t, ts, rfl, _⟩ := first.exists_cons
    have hlines : Lines opens (t :: (ts ++ (next :: (us ++ rest)))) all := by simpa using hlines
    obtain ⟨semis, vs, rfl, hsemis, hvs⟩ := hlines.strip
    obtain ⟨ws, xs, rfl, hxs, hws⟩ :=
      first.flatten (fun u hu => hinner u (List.mem_append_left _ hu)) hvs
    obtain ⟨ys, rest', rfl, hrest, hys⟩ :=
      more.flatten (fun u hu => hinner u (List.mem_append_right _ hu)) hxs
    obtain ⟨v, _, hv, hends⟩ := hxs.ends hnext
    obtain ⟨u, zs, rfl, _⟩ := hys.head
    obtain ⟨rfl, _⟩ := List.cons.inj hv
    exact ⟨semis ++ (t.inside :: ws ++ u :: zs), rest', by simp, hrest,
      .semicolons hsemis (.cons hws hends hys)⟩

end

mutual

/-- A sentence with line breaks as semicolons is a sentence that opens no line inside. -/
theorem Sentence.unflatten : ∀ {us inner : List Token} {s : Statement}, Sentence us inner s →
    ∀ {opens : Bool} {ts rest' : List Token}, Lines opens ts (us ++ rest') →
    ∃ vs rest, ts = vs ++ rest ∧ Lines false rest rest' ∧ Sentence vs inner s ∧
      ∀ u ∈ inner, u.lineStart = false
  | _, _, _, .assign htarget hsign hnumber hvalue, _, _, _, hlines => by
    obtain ⟨t, vs, rfl, rfl, hvs⟩ := hlines.head_of_ne_semicolon (by simp [htarget])
    obtain ⟨rest, rfl, hrest, hinner⟩ :=
      hvs.row_of_kind (Sentence.assign htarget hsign hnumber hvalue).inner_ne_semicolon
    exact ⟨t :: _, rest, rfl, hrest, .assign htarget hsign hnumber hvalue, hinner⟩
  | _, _, _, .increment htarget hsign hoperand hplus hone hvalue, _, _, _, hlines => by
    obtain ⟨t, vs, rfl, rfl, hvs⟩ := hlines.head_of_ne_semicolon (by simp [htarget])
    obtain ⟨rest, rfl, hrest, hinner⟩ := hvs.row_of_kind
      (Sentence.increment htarget hsign hoperand hplus hone hvalue).inner_ne_semicolon
    exact ⟨t :: _, rest, rfl, hrest, .increment htarget hsign hoperand hplus hone hvalue, hinner⟩
  | _, _, _, .call htarget hsign hcallee hleft hargs, _, _, _, hlines => by
    obtain ⟨t, vs, rfl, rfl, hvs⟩ := hlines.head_of_ne_semicolon (by simp [htarget])
    obtain ⟨rest, rfl, hrest, hinner⟩ :=
      hvs.row_of_kind (Sentence.call htarget hsign hcallee hleft hargs).inner_ne_semicolon
    exact ⟨t :: _, rest, rfl, hrest, .call htarget hsign hcallee hleft hargs, hinner⟩
  | _, _, _, .input hword htargets, _, _, _, hlines => by
    obtain ⟨t, vs, rfl, rfl, hvs⟩ := hlines.head_of_ne_semicolon (by simp [hword])
    obtain ⟨rest, rfl, hrest, hinner⟩ :=
      hvs.row_of_kind (Sentence.input hword htargets).inner_ne_semicolon
    exact ⟨t :: _, rest, rfl, hrest, .input hword htargets, hinner⟩
  | _, _, _, .output hword hitems hnumbers, _, _, _, hlines => by
    obtain ⟨t, vs, rfl, rfl, hvs⟩ := hlines.head_of_ne_semicolon (by simp [hword])
    obtain ⟨rest, rfl, hrest, hinner⟩ :=
      hvs.row_of_kind (Sentence.output hword hitems hnumbers).inner_ne_semicolon
    exact ⟨t :: _, rest, rfl, hrest, .output hword hitems hnumbers, hinner⟩
  | _, _, _, @Sentence.loop word count opening us inner body hword hcount hopening hbody, _, ts,
      rest', hlines => by
    obtain ⟨t, vs, rfl, rfl, hvs⟩ := hlines.head_of_ne_semicolon (by simp [hword])
    have hvs : Lines false vs ((count :: opening) ++ (us ++ rest')) := by simpa using hvs
    have hrow : ∀ u ∈ count :: opening, u.kind ≠ .semicolon := by
      cases hopening with
      | absent => simp [hcount]
      | present hdo => simp [hcount, hdo]
    obtain ⟨ws, rfl, hws, hline⟩ := hvs.row_of_kind hrow
    obtain ⟨xs, rest, rfl, hrest, hxs, hinner⟩ := hbody.unflatten (by simp) hws
    refine ⟨t :: count :: (opening ++ xs), rest, by simp, hrest,
      .loop hword hcount hopening hxs, ?_⟩
    rw [← List.cons_append]
    intro u hu
    rcases List.mem_append.mp hu with hu | hu
    · exact hline u hu
    · exact hinner u hu
  | _, _, _, @Sentence.define word name left opening ps us inner params body hword hname hleft
      hparams hnodup hopening hbody, _, ts, rest', hlines => by
    obtain ⟨t, vs, rfl, rfl, hvs⟩ := hlines.head_of_ne_semicolon (by simp [hword])
    have hvs : Lines false vs (name :: left :: (ps ++ [opening]) ++ (us ++ rest')) := by
      simpa using hvs
    have hrow : ∀ u ∈ name :: left :: (ps ++ [opening]), u.kind ≠ .semicolon := by
      have hnames := hparams.ne_semicolon
      simp only [List.mem_cons, List.mem_append, List.not_mem_nil, or_false]
      rintro u (rfl | rfl | hu | rfl)
      · simp [hname]
      · simp [hleft]
      · exact hnames u hu
      · simp [hopening]
    obtain ⟨ws, rfl, hws, hline⟩ := hvs.row_of_kind hrow
    obtain ⟨xs, rest, rfl, hrest, hxs, hinner⟩ := hbody.unflatten (by simp) hws
    refine ⟨t :: name :: left :: (ps ++ opening :: xs), rest, by simp, hrest,
      .define hword hname hleft hparams hnodup hopening hxs, fun u hu => ?_⟩
    have hu : u ∈ name :: left :: (ps ++ [opening]) ++ inner := by simpa using hu
    rcases List.mem_append.mp hu with hu | hu
    · exact hline u hu
    · exact hinner u hu

theorem Sentences.unflatten : ∀ {close : Kind} {us inner : List Token} {body : List Statement},
    Sentences close us inner body → close ≠ .semicolon →
    ∀ {opens : Bool} {ts rest' : List Token}, Lines opens ts (us ++ rest') →
    ∃ vs rest, ts = vs ++ rest ∧ Lines false rest rest' ∧ Sentences close vs inner body ∧
      ∀ u ∈ inner, u.lineStart = false
  | _, _, _, _, .close h, hclose, _, _, _, hlines => by
    obtain ⟨t, vs, rfl, rfl, hvs⟩ := hlines.head_of_ne_semicolon (h ▸ hclose)
    exact ⟨[t], vs, rfl, hvs, .close h, by simp⟩
  | _, _, _, _, .semicolon h more, hclose, _, _, _, hlines => by
    cases hlines with
    | newline _ hrest => exact more.unflatten hclose hrest
    | token _ hrest =>
      obtain ⟨vs, rest, rfl, hrest, hvs, hinner⟩ := more.unflatten hclose hrest
      exact ⟨_ :: vs, rest, rfl, hrest, .semicolon h hvs, hinner⟩
  | _, _, _, _, @Sentences.cons _ next us₁ us₂ inner inners s body first hnext more, hclose, opens,
      ts, rest', hlines => by
    rw [List.append_assoc] at hlines
    obtain ⟨vs, xs, rfl, hxs, hvs, hinner⟩ := first.unflatten hlines
    obtain ⟨ws, rest, rfl, hrest, hws, hinners⟩ := more.unflatten hclose hxs
    obtain ⟨t, ws, rfl, _⟩ := hws.head
    refine ⟨vs ++ t :: ws, rest, by simp, hrest, .cons hvs (hxs.ends_of hnext) hws, ?_⟩
    intro u hu
    rcases List.mem_append.mp hu with hu | hu
    · exact hinner u hu
    · exact hinners u hu

end

/-- Tokens are sentences in both forms or in none, if no line is opened inside a statement. -/
theorem Sentences.iff_flat {close : Kind} (hclose : close ≠ .semicolon) {ts us : List Token}
    {body : List Statement} (h : Lines true ts us) :
    (∃ inner, Sentences close us inner body) ↔
      ∃ inner, Sentences close ts inner body ∧ ∀ t ∈ inner, t.lineStart = false := by
  have hall : Lines true (ts ++ []) us := by rwa [List.append_nil]
  have hall' : Lines true ts (us ++ []) := by rwa [List.append_nil]
  constructor
  · rintro ⟨inner, hinner⟩
    obtain ⟨vs, rest, rfl, hrest, hvs, hline⟩ := hinner.unflatten hclose hall'
    cases hrest
    exact ⟨inner, by rwa [List.append_nil], hline⟩
  · rintro ⟨inner, hinner, hline⟩
    obtain ⟨vs, rest, rfl, hrest, hvs⟩ := hinner.flatten hline hall
    cases hrest
    exact ⟨inner, by rwa [List.append_nil]⟩

open Grammar (Piece Feed piecesFrom terminal? wordTerminal_kind markTerminal_kind)

/-- The piece of a lexeme stands for the token that the lexeme denotes. -/
theorem Lexeme.Denotes.piece {lexeme : Lexeme} {kind : Kind} {text : String}
    (h : lexeme.Denotes kind text) (hkind : kind.isTrivia = false) (place : Place) :
    ∃ terminal, terminal? lexeme = .ok (some terminal) ∧
      (Piece.mk terminal (String.ofList lexeme.chars) place).flat =
        ⟨kind, .text text, place, false⟩ ∧
      (Piece.mk terminal (String.ofList lexeme.chars) place).Sound := by
  have hplain : ∀ {terminal : Grammar.Terminal} {cs : List Char}, terminal.kind ≠ .string →
      (Piece.mk terminal (String.ofList cs) place).flat =
        ⟨terminal.kind, .text (String.ofList cs), place, false⟩ ∧
      (Piece.mk terminal (String.ofList cs) place).Sound := by
    intro terminal cs hne
    have hne : terminal ≠ .string := fun heq => hne (congrArg Grammar.Terminal.kind heq)
    exact ⟨by simp [Piece.flat, hne], fun heq => absurd heq hne⟩
  cases h with
  | newline => cases hkind
  | comment => cases hkind
  | word cs =>
    refine ⟨_, rfl, ?_⟩
    rw [← wordTerminal_kind]
    exact hplain (by rw [wordTerminal_kind]; exact (Lexeme.wordKind_not_literal _).2)
  | number cs => exact ⟨_, rfl, hplain (by simp [Grammar.Terminal.kind])⟩
  | @string raw text hdecode =>
    refine ⟨_, rfl, ?_⟩
    have hliteral : (Piece.mk .string (String.ofList (Lexeme.string raw).chars) place).literal =
        some text := by
      simpa [Piece.literal, Lexeme.chars] using hdecode
    exact ⟨by simp [Piece.flat, hliteral, Grammar.Terminal.kind], fun _ => by rw [hliteral]; rfl⟩
  | assign => exact ⟨_, rfl, hplain (by simp [Grammar.Terminal.kind])⟩
  | mark c =>
    refine ⟨_, rfl, ?_⟩
    rw [← markTerminal_kind]
    refine hplain ?_
    have hmark := Lexeme.markKind_cases c
    rw [← markTerminal_kind] at hmark
    rintro heq
    rw [heq] at hmark
    simp at hmark

/-- What is passed over is a newline or a comment. -/
theorem Lexeme.Denotes.trivia {lexeme : Lexeme} {kind : Kind} {text : String}
    (h : lexeme.Denotes kind text) (hkind : kind.isTrivia = true) :
    (kind = .newline ∧ terminal? lexeme = .ok (some .separator)) ∨
      (kind = .comment ∧ terminal? lexeme = .ok none) := by
  cases h with
  | newline => exact .inl ⟨rfl, rfl⟩
  | comment cs => exact .inr ⟨rfl, rfl⟩
  | word cs =>
    rw [Lexeme.wordKind_not_trivia] at hkind
    cases hkind
  | mark c =>
    unfold Lexer.markKind at hkind
    split at hkind <;> cases hkind
  | _ => cases hkind

theorem Lines.ne_nil {opens : Bool} {ts us : List Token} (h : Lines opens ts us) (hus : us ≠ []) :
    ts ≠ [] := by
  cases h with
  | nil => exact absurd rfl hus
  | newline _ _ => simp
  | token _ _ => simp

namespace Lexer

/-- What is left has no fault, and its pieces are its tokens up to line breaks. -/
def Flat (lexer : Lexer) : Prop :=
  ∀ ⦃count : Nat⦄, lexer.rest.length < count →
    ∃ pieces t, piecesFrom count lexer.place lexer.rest = (pieces, none) ∧ t.kind = .eof ∧
      (∀ p ∈ pieces, p.Sound) ∧
      Lines lexer.lineStart lexer.tokens.1 (pieces.map Piece.flat ++ [t])

variable {lexer : Lexer} {lexeme : Lexeme}

theorem flat_finish (hread : Lexeme.read? lexer.skipGaps.rest = none) {t : Token} {last : Lexer}
    (ht : t.kind = .eof) (hline : t.lineStart = lexer.lineStart)
    (htokens : lexer.tokens = ([t], none, last)) : lexer.Flat := by
  intro count hcount
  obtain ⟨count, rfl⟩ : ∃ k, count = k + 1 := ⟨count - 1, by omega⟩
  refine ⟨[], t.inside, ?_, ht, by simp, ?_⟩
  · rw [piecesFrom]
    simp only [skipGaps, skip_rest] at hread
    simp only [hread]
  · rw [htokens]
    exact .token hline .nil

variable (hread : Lexeme.read? lexer.skipGaps.rest = some lexeme) (t : Token)
  (hflat : ((lexer.skipGaps.skip lexeme.chars).noted t).Flat)
include hread hflat

theorem flat_comment (hterminal : terminal? lexeme = .ok none) (ht : t.kind = .comment)
    (htokens : lexer.tokens = ((lexer.skipGaps.skip lexeme.chars).noted t).tokens) :
    lexer.Flat := by
  intro count hcount
  obtain ⟨count, rfl⟩ : ∃ k, count = k + 1 := ⟨count - 1, by omega⟩
  have hshort := Lexeme.length_drop_chars_lt hread
  have hgaps := skipGaps_length_le lexer
  obtain ⟨pieces, finish, hpieces, hrest⟩ := @hflat count (by
    show (lexer.skipGaps.rest.drop lexeme.chars.length).length < count
    omega)
  refine ⟨pieces, finish, ?_, ?_⟩
  · rw [piecesFrom]
    simp only [skipGaps, skip_rest] at hread
    simp only [hread, hterminal]
    exact hpieces
  · have hopens : ((lexer.skipGaps.skip lexeme.chars).noted t).lineStart = lexer.lineStart := by
      simp only [noted, ht, startsLine]
      rfl
    rw [hopens] at hrest
    rw [htokens]
    exact hrest

omit hflat in
theorem piecesFrom_cons {count : Nat} {terminal : Grammar.Terminal} {pieces : List Piece}
    {fault : Option Error} (hterminal : terminal? lexeme = .ok (some terminal))
    (hpieces : piecesFrom count (lexer.skipGaps.skip lexeme.chars).place
      (lexer.skipGaps.skip lexeme.chars).rest = (pieces, fault)) :
    piecesFrom (count + 1) lexer.place lexer.rest =
      (⟨terminal, String.ofList lexeme.chars, lexer.skipGaps.place⟩ :: pieces, fault) := by
  rw [piecesFrom]
  simp only [skipGaps, skip_rest, skip_place] at hread hpieces ⊢
  simp only [hread, hterminal, hpieces]

theorem flat_newline (hterminal : terminal? lexeme = .ok (some .separator))
    (ht : t.kind = .newline)
    (htokens : lexer.tokens = ((lexer.skipGaps.skip lexeme.chars).noted t).tokens) :
    lexer.Flat := by
  intro count hcount
  obtain ⟨count, rfl⟩ : ∃ k, count = k + 1 := ⟨count - 1, by omega⟩
  have hshort := Lexeme.length_drop_chars_lt hread
  have hgaps := skipGaps_length_le lexer
  obtain ⟨pieces, finish, hpieces, hfinish, hsound, hlines⟩ := @hflat count (by
    show (lexer.skipGaps.rest.drop lexeme.chars.length).length < count
    omega)
  refine ⟨_, finish, piecesFrom_cons hread hterminal hpieces, hfinish, ?_, ?_⟩
  · rintro p (_ | ⟨_, hp⟩)
    · exact fun hstring => by cases hstring
    · exact hsound p hp
  · have hopens : ((lexer.skipGaps.skip lexeme.chars).noted t).lineStart = true := by
      simp [noted, ht, startsLine]
    rw [hopens] at hlines
    obtain ⟨u, us, hus⟩ := List.exists_cons_of_ne_nil (hlines.ne_nil (by simp))
    rw [hus] at hlines
    rw [htokens, hus]
    exact .newline rfl hlines

theorem flat_token {kind : Kind} {text : String} (hdenotes : lexeme.Denotes kind text)
    (hkind : kind.isTrivia = false)
    (ht : t = ⟨kind, .text text, lexer.skipGaps.place, lexer.lineStart⟩)
    (htokens : lexer.tokens.1 = t :: ((lexer.skipGaps.skip lexeme.chars).noted t).tokens.1) :
    lexer.Flat := by
  intro count hcount
  obtain ⟨count, rfl⟩ : ∃ k, count = k + 1 := ⟨count - 1, by omega⟩
  have hshort := Lexeme.length_drop_chars_lt hread
  have hgaps := skipGaps_length_le lexer
  obtain ⟨pieces, finish, hpieces, hfinish, hsound, hlines⟩ := @hflat count (by
    show (lexer.skipGaps.rest.drop lexeme.chars.length).length < count
    omega)
  obtain ⟨terminal, hterminal, hpiece, hsoundPiece⟩ := hdenotes.piece hkind lexer.skipGaps.place
  refine ⟨_, finish, piecesFrom_cons hread hterminal hpieces, hfinish, ?_, ?_⟩
  · rintro p (_ | ⟨_, hp⟩)
    · exact hsoundPiece
    · exact hsound p hp
  · have hopens : ((lexer.skipGaps.skip lexeme.chars).noted t).lineStart = false := by
      subst ht
      simp only [noted]
      cases kind <;> first | rfl | cases hkind
    rw [hopens] at hlines
    rw [htokens, List.map_cons, hpiece]
    subst ht
    exact .token rfl hlines

omit hread hflat in
/-- The tokens of a source without lexical errors are its pieces, up to line breaks. -/
theorem flat_of_no_fault (hp : lexer.pushed = none) (hkeep : lexer.keepTrivia = false)
    (hfault : lexer.tokens.2.1 = none) : lexer.Flat := by
  have hcourse := course hp
  clear hp
  induction hcourse with
  | fault hp hscan =>
    rw [tokens_of_error (next_of_error hp hscan)] at hfault
    cases hfault
  | finish hp hread hscan =>
    have hnext := next_of_wanted hp hscan (by simp [Kind.isTrivia])
    exact flat_finish hread rfl rfl (tokens_of_eof hnext rfl)
  | @lexeme lexer lexeme kind text hp hread hdenotes hscan _ hmore =>
    cases htrivia : kind.isTrivia with
    | true =>
      have htokens := tokens_of_unwanted hp hscan (by simp [htrivia, hkeep])
      rw [htokens] at hfault
      have hflat := hmore hkeep hfault
      rcases hdenotes.trivia htrivia with ⟨hkind, hterminal⟩ | ⟨hkind, hterminal⟩
      · exact flat_newline hread _ hflat hterminal hkind htokens
      · exact flat_comment hread _ hflat hterminal hkind htokens
    | false =>
      have hnext := next_of_wanted hp hscan (by simp [htrivia])
      have htokens := tokens_of_ok hnext hdenotes.kind_ne_eof
      rw [htokens] at hfault
      exact flat_token hread _ (hmore hkeep hfault) hdenotes htrivia rfl (by rw [htokens])

end Lexer

/-- Where a source has no lexical error, the grammar gives the program that its tokens read as, as
long as none of the inner tokens opens a line. -/
theorem parseByGrammar_eq_ok {source : String}
    (hlexical : (Lexer.ofSource source false).tokens.2.1 = none) {registry after : Registry}
    {body : List Statement} :
    parseByGrammar source registry = (.ok body, after) ↔
      (∃ inner, Sentences .eof (Lexer.ofSource source false).tokens.1 inner body ∧
        ∀ t ∈ inner, t.lineStart = false) ∧ Statement.enrollAll body registry = some after := by
  obtain ⟨pieces, finish, hpieces, hfinish, hsound, hlines⟩ :=
    Lexer.flat_of_no_fault rfl rfl hlexical (Nat.lt_succ_self _)
  have hfeed : (Feed.ofSource source).pieces = pieces := congrArg Prod.fst hpieces
  have hfault : (Feed.ofSource source).fault = none := congrArg Prod.snd hpieces
  have hflat := @Sentences.iff_flat .eof (by simp) _ _ body hlines
  constructor
  · intro h
    obtain ⟨_, hsentences, henroll⟩ := Grammar.parseByGrammar_ok h
    exact ⟨hflat.mp (hfeed ▸ hsentences finish hfinish), henroll⟩
  · rintro ⟨hinner, henroll⟩
    obtain ⟨_, hsentences⟩ := hflat.mpr hinner
    exact Grammar.parseByGrammar_of_sentences hfinish (hfeed.symm ▸ hsentences) hfault
      (hfeed.symm ▸ hsound) henroll

/-- Where a source has no lexical error, the two parsers differ in line breaks only. The grammar
gives a program and a registry exactly if descent gives the same and no inner token of the one
reading that the tokens have opens a line. -/
theorem parseByGrammar_iff_parseByDescent {source : String}
    (hlexical : (Lexer.ofSource source false).tokens.2.1 = none) (registry after : Registry)
    (body : List Statement) :
    parseByGrammar source registry = (.ok body, after) ↔
      parseByDescent source registry = (.ok body, after) ∧
        ∃ inner, (∀ other found, Sentences .eof (Lexer.ofSource source false).tokens.1 other found ↔
            other = inner ∧ found = body) ∧
          ∀ t ∈ inner, t.lineStart = false := by
  rw [parseByGrammar_eq_ok hlexical, parseByDescent_eq_ok]
  constructor
  · rintro ⟨⟨inner, hinner, hline⟩, henroll⟩
    refine ⟨⟨hlexical, ⟨inner, hinner⟩, henroll⟩, inner, fun other found => ⟨?_, ?_⟩, hline⟩
    · intro hother
      obtain ⟨_, rfl, rfl⟩ :=
        @Sentences.unique _ _ _ _ hother _ _ _ hinner (by simp [sentenceStarts]) [] [] rfl
      exact ⟨rfl, rfl⟩
    · rintro ⟨rfl, rfl⟩
      exact hinner
  · rintro ⟨⟨_, _, henroll⟩, inner, hunique, hline⟩
    exact ⟨⟨inner, (hunique inner body).mpr ⟨rfl, rfl⟩, hline⟩, henroll⟩

theorem parseByGrammar_iff_parseByDescent_comment :
    (Lexer.ofSource "PROGRAM P(a) DO\n  X0 := a + 1 # next\nEND\nx := P(x);" false).tokens.2.1 =
        none ∧
      parseByDescent "PROGRAM P(a) DO\n  X0 := a + 1 # next\nEND\nx := P(x);" [] =
        (.ok [.define (.text "P") [.text "a"] [.increment (.text "X0") (.text "a")],
            .call (.text "x") (.text "P") [.text "x"]],
          [⟨.text "P", [.text "a"], [.increment (.text "X0") (.text "a")]⟩]) :=
  ⟨by cbv, ((parseByGrammar_iff_parseByDescent (by cbv) [] _ _).mp (by cbv)).1⟩

end LoopLanguage
