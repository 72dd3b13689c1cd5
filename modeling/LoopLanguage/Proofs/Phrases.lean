import LoopLanguage.Proofs.Sentence

/-!
The grammar reads the same sentences, from pieces in place of tokens. Every piece stands for a
token that opens no line, a line break for a semicolon. A phrase that has a meaning was read from
pieces whose tokens are a sentence for that meaning.
-/

namespace LoopLanguage.Grammar

/-- The kind of token that a terminal stands for. -/
def Terminal.kind : Terminal → Kind
  | finish => .eof
  | comma => .comma
  | kwDo => .kwDo
  | kwEnd => .kwEnd
  | identifier => .identifier
  | kwInput => .kwInput
  | kwLoop => .kwLoop
  | leftParen => .leftParen
  | number => .number
  | kwOutput => .kwPrint
  | plus => .plus
  | kwPrint => .kwPrint
  | kwProgram => .kwProgram
  | rightParen => .rightParen
  | string => .string
  | separator => .semicolon
  | assign => .assign

namespace Piece

/-- The text between the quotes of a literal, with its escapes read. -/
def literal (piece : Piece) : Option (List Char) :=
  Literal.decode (piece.text.toList.drop 1).dropLast

/-- The token that a piece stands for. -/
def flat (piece : Piece) : Token :=
  let text := if piece.terminal = .string then String.ofList (piece.literal.getD []) else piece.text
  ⟨piece.terminal.kind, .text text, piece.place, false⟩

@[simp] theorem flat_kind (piece : Piece) : piece.flat.kind = piece.terminal.kind := rfl

@[simp] theorem flat_lineStart (piece : Piece) : piece.flat.lineStart = false := rfl

@[simp] theorem flat_place (piece : Piece) : piece.flat.place = piece.place := rfl

theorem flat_text {piece : Piece} (h : piece.terminal ≠ .string) : piece.flat.text = piece.atom := by
  simp [flat, h, atom]

/-- The piece is a name, a number or a string. -/
def IsItem (piece : Piece) : Prop := piece.terminal ∈ [Terminal.identifier, .number, .string]

/-- A piece that has a token is read as the token that it stands for. -/
theorem token_eq_flat {piece : Piece} {t : Token} (h : piece.token = .ok t) : t = piece.flat := by
  unfold token at h
  split at h
  · next hkind =>
    rw [← literal] at h
    cases hliteral : piece.literal with
    | none =>
      rw [hliteral] at h
      cases h
    | some text =>
      rw [hliteral] at h
      cases h
      simp [flat, hkind, hliteral, Terminal.kind]
  · next hkind =>
    cases h
    simp [flat, hkind, Terminal.kind]
  · next hkind =>
    cases h
    simp [flat, hkind, Terminal.kind]
  · cases h

theorem value_eq_ok {piece : Piece} {value : Nat} (h : piece.value = .ok value) :
    piece.flat.value = .ok value := by
  obtain ⟨t, htoken, hvalue⟩ := result_bind_eq_ok.mp h
  rw [← token_eq_flat htoken]
  exact hvalue

theorem mapM_token_eq_ok {pieces : List Piece} {ts : List Token}
    (h : pieces.mapM Piece.token = .ok ts) : ts = pieces.map flat := by
  induction pieces generalizing ts with
  | nil =>
    cases h
    rfl
  | cons piece pieces ih =>
    rw [List.mapM_cons] at h
    obtain ⟨t, ht, hrest⟩ := result_bind_eq_ok.mp h
    obtain ⟨us, hus, hdone⟩ := result_bind_eq_ok.mp hrest
    cases hdone
    rw [List.map_cons, token_eq_flat ht, ih hus]

end Piece

namespace Feed

/-- The pieces `ps` lead from one feed to the other. -/
def Took (feed : Feed) (ps : List Piece) (after : Feed) : Prop :=
  feed.pieces = ps ++ after.pieces ∧ after.fault = feed.fault

theorem Took.refl (feed : Feed) : Took feed [] feed := ⟨rfl, rfl⟩

theorem Took.trans {feed middle after : Feed} {ps qs : List Piece} (h : Took feed ps middle)
    (h' : Took middle qs after) : Took feed (ps ++ qs) after :=
  ⟨by rw [h.1, h'.1, List.append_assoc], h'.2.trans h.2⟩

end Feed

theorem look_eq_ok {expected : List Terminal} {feed after : Feed} {piece : Piece}
    (h : look expected feed = (.ok piece, after)) :
    feed.front = .ok piece ∧ piece.terminal ∈ expected ∧ feed = after := by
  unfold look at h
  split at h
  · cases h
  · next front hfront =>
    split at h
    · next hmem =>
      cases h
      exact ⟨hfront, List.contains_iff_mem.mp hmem, rfl⟩
    · cases h

theorem Feed.took_drop {feed : Feed} {piece : Piece} (h : feed.front = .ok piece)
    (hpiece : piece.terminal ≠ .finish) : Took feed [piece] feed.drop := by
  unfold Feed.front at h
  unfold Took Feed.drop
  split at h
  · next first rest hpieces =>
    cases h
    rw [hpieces]
    exact ⟨rfl, rfl⟩
  · cases h
  · cases h
    exact absurd rfl hpiece

theorem shift_eq_ok {expected : List Terminal} {feed after : Feed} {piece : Piece}
    (hexpected : .finish ∉ expected) (h : shift expected feed = (.ok piece, after)) :
    piece.terminal ∈ expected ∧ feed.Took [piece] after := by
  obtain ⟨found, same, hlook, hrest⟩ := Action.bind_eq_ok_iff.mp h
  obtain ⟨hfront, hmem, rfl⟩ := look_eq_ok hlook
  rw [Action.modify_bind] at hrest
  cases hrest
  exact ⟨hmem, Feed.took_drop hfront fun hfinish => hexpected (hfinish ▸ hmem)⟩

theorem Feed.Took.shift {feed r after : Feed} {ps : List Piece} {expected : List Terminal} {α : Type}
    {f : Piece → Action Feed α} {b : α} (h : Took feed ps r) (hexpected : .finish ∉ expected)
    (hrun : (Grammar.shift expected >>= f) r = (.ok b, after)) :
    ∃ piece r', piece.terminal ∈ expected ∧ Took feed (ps ++ [piece]) r' ∧
      f piece r' = (.ok b, after) := by
  obtain ⟨piece, r', hshift, hrest⟩ := Action.bind_eq_ok_iff.mp hrun
  obtain ⟨hmem, htook⟩ := shift_eq_ok hexpected hshift
  exact ⟨piece, r', hmem, h.trans htook, hrest⟩

theorem namesFrom_ok {count : Nat} {name : Piece} {feed after : Feed} {names : List Piece}
    (hname : name.terminal = .identifier) (h : namesFrom count name feed = (.ok names, after)) :
    ∃ ps, feed.Took ps after ∧ Names ((name :: ps).map Piece.flat) (names.map Piece.atom) := by
  have hkind : name.flat.kind = .identifier := by simp [hname, Terminal.kind]
  have htext : name.flat.text = name.atom := Piece.flat_text (by simp [hname])
  induction count generalizing name feed names with
  | zero => cases h
  | succ count ih =>
    obtain ⟨sep, r₁, hsep, h₁, hrest₁⟩ := (Feed.Took.refl feed).shift (by simp) h
    split at hrest₁
    · next hcomma =>
      obtain ⟨next, r₂, hnext, h₂, hrest₂⟩ := h₁.shift (by simp) hrest₁
      have hnext : next.terminal = .identifier := by simpa using hnext
      obtain ⟨more, r₃, hmore, hdone⟩ := Action.bind_eq_ok_iff.mp hrest₂
      cases hdone
      obtain ⟨ps, hps, hnames⟩ :=
        ih hnext hmore (by simp [hnext, Terminal.kind]) (Piece.flat_text (by simp [hnext]))
      refine ⟨sep :: next :: ps, by simpa using h₂.trans hps, ?_⟩
      show Names (name.flat :: sep.flat :: (next :: ps).map Piece.flat)
        (name.atom :: more.map Piece.atom)
      rw [← htext]
      exact .more hkind (by simp [hcomma, Terminal.kind]) hnames
    · next hcomma =>
      cases hrest₁
      have hclose : sep.terminal = .rightParen := by simpa [hcomma] using hsep
      refine ⟨[sep], h₁, ?_⟩
      show Names [name.flat, sep.flat] [name.atom]
      rw [← htext]
      exact .last hkind (by simp [hclose, Terminal.kind])

theorem nameList_ok {feed after : Feed} {names : List Piece}
    (h : nameList feed = (.ok names, after)) :
    ∃ ps, feed.Took ps after ∧ NameList (ps.map Piece.flat) (names.map Piece.atom) := by
  obtain ⟨piece, r₁, hpiece, h₁, hrest₁⟩ := (Feed.Took.refl feed).shift (by simp) h
  split at hrest₁
  · next hclose =>
    cases hrest₁
    exact ⟨[piece], h₁, .none (by simp [hclose, Terminal.kind])⟩
  · next hclose =>
    have hname : piece.terminal = .identifier := by simpa [hclose] using hpiece
    rw [Action.get_bind] at hrest₁
    obtain ⟨ps, hps, hnames⟩ := namesFrom_ok hname hrest₁
    exact ⟨piece :: ps, h₁.trans hps, .some hnames⟩

/-- The terminals of items are those of the kinds of items. -/
def ItemTerminals (terminals : List Terminal) (kinds : List Kind) : Prop :=
  (∀ terminal, terminal ∈ terminals ↔ terminal.kind ∈ kinds) ∧
    terminals ⊆ [.identifier, .number, .string]

theorem itemsFrom_ok {terminals : List Terminal} {kinds : List Kind}
    (hkinds : ItemTerminals terminals kinds) {count : Nat} {feed after : Feed} {items : List Piece}
    (h : itemsFrom terminals count feed = (.ok items, after)) :
    ∃ ps, feed.Took ps after ∧ Items kinds (ps.map Piece.flat) (items.map Piece.flat) := by
  have hfinish : .finish ∉ terminals := fun hmem => by simpa using hkinds.2 hmem
  induction count generalizing feed items with
  | zero => cases h
  | succ count ih =>
    obtain ⟨sep, same, hlook, hrest⟩ := Action.bind_eq_ok_iff.mp h
    obtain ⟨_, _, rfl⟩ := look_eq_ok hlook
    split at hrest
    · obtain ⟨comma, r₁, hcomma, h₁, hrest₁⟩ := (Feed.Took.refl _).shift (by simp) hrest
      have hcomma : comma.flat.kind = .comma := by simp_all [Terminal.kind]
      obtain ⟨item, same', hlook', hrest₂⟩ := Action.bind_eq_ok_iff.mp hrest₁
      obtain ⟨_, _, rfl⟩ := look_eq_ok hlook'
      split at hrest₂
      · obtain ⟨item, r₂, hitem, h₂, hrest₃⟩ := h₁.shift hfinish hrest₂
        obtain ⟨more, r₃, hmore, hdone⟩ := Action.bind_eq_ok_iff.mp hrest₃
        cases hdone
        obtain ⟨ps, hps, hitems⟩ := ih hmore
        refine ⟨comma :: item :: ps, by simpa using h₂.trans hps, ?_⟩
        exact .more hcomma rfl ((hkinds.1 _).mp hitem) rfl hitems
      · cases hrest₂
        exact ⟨[comma], h₁, .trailing hcomma rfl⟩
    · cases hrest
      exact ⟨[], .refl _, .done⟩

theorem itemList_ok {terminals : List Terminal} {kinds : List Kind}
    (hkinds : ItemTerminals terminals kinds) {feed after : Feed} {items : List Piece}
    (h : itemList terminals feed = (.ok items, after)) :
    ∃ ps, feed.Took ps after ∧ ItemList kinds (ps.map Piece.flat) (items.map Piece.flat) := by
  have hfinish : .finish ∉ terminals := fun hmem => by simpa using hkinds.2 hmem
  obtain ⟨first, r₁, hfirst, h₁, hrest₁⟩ := (Feed.Took.refl feed).shift hfinish h
  rw [Action.get_bind] at hrest₁
  obtain ⟨more, r₂, hmore, hdone⟩ := Action.bind_eq_ok_iff.mp hrest₁
  cases hdone
  obtain ⟨ps, hps, hitems⟩ := itemsFrom_ok hkinds hmore
  exact ⟨first :: ps, h₁.trans hps, .mk ((hkinds.1 _).mp hfirst) hitems⟩

/-- Whatever the phrase means is a sentence of the pieces' tokens and was enrolled. -/
def Phrase.Says (phrase : Phrase) (ps : List Piece) : Prop :=
  ∀ {registry after : Registry} {s : Statement}, phrase.meaning registry = (.ok s, after) →
    ∃ inner, Sentence (ps.map Piece.flat) inner s ∧ s.enroll registry = some after

theorem assignment_ok {target : Piece} {feed after : Feed} {phrase : Phrase}
    (htarget : target.terminal = .identifier)
    (h : assignment target feed = (.ok phrase, after)) :
    ∃ ps, feed.Took ps after ∧ phrase.Says (target :: ps) := by
  have hkind : target.flat.kind = .identifier := by simp [htarget, Terminal.kind]
  have htext : target.flat.text = target.atom := Piece.flat_text (by simp [htarget])
  obtain ⟨sign, r₁, hsign, h₁, hrest₁⟩ := (Feed.Took.refl feed).shift (by simp) h
  have hsign : sign.flat.kind = .assign := by simp_all [Terminal.kind]
  obtain ⟨value, r₂, hvalue, h₂, hrest₂⟩ := h₁.shift (by simp) hrest₁
  split at hrest₂
  · next hnumber =>
    cases hrest₂
    refine ⟨[sign, value], h₂, fun hmeaning => ?_⟩
    obtain ⟨n, hn, hdone⟩ := Action.ofExcept_bind_eq_ok_iff.mp hmeaning
    cases hdone
    refine ⟨[sign.flat, value.flat], ?_, rfl⟩
    rw [← htext]
    exact .assign hkind hsign (by simp [hnumber, Terminal.kind]) (Piece.value_eq_ok hn)
  · next hnumber =>
    have hname : value.terminal = .identifier := by simpa [hnumber] using hvalue
    have hnameKind : value.flat.kind = .identifier := by simp [hname, Terminal.kind]
    have hnameText : value.flat.text = value.atom := Piece.flat_text (by simp [hname])
    obtain ⟨mark, r₃, hmark, h₃, hrest₃⟩ := h₂.shift (by simp) hrest₂
    split at hrest₃
    · next hplus =>
      obtain ⟨one, r₄, hone, h₄, hrest₄⟩ := h₃.shift (by simp) hrest₃
      cases hrest₄
      have hone : one.terminal = .number := by simpa using hone
      refine ⟨[sign, value, mark, one], h₄, fun hmeaning => ?_⟩
      obtain ⟨n, hn, hunit⟩ := Action.ofExcept_bind_eq_ok_iff.mp hmeaning
      split at hunit
      · cases hunit
      · next hn' =>
        cases hunit
        have hn' : n = 1 := Decidable.not_not.mp hn'
        subst hn'
        refine ⟨[sign.flat, value.flat, mark.flat, one.flat], ?_, rfl⟩
        rw [← htext, ← hnameText]
        exact .increment hkind hsign hnameKind (by simp [hplus, Terminal.kind])
          (by simp [hone, Terminal.kind]) (Piece.value_eq_ok hn)
    · next hplus =>
      have hleft : mark.terminal = .leftParen := by simpa [hplus] using hmark
      obtain ⟨args, r₄, hargs, hdone⟩ := Action.bind_eq_ok_iff.mp hrest₃
      cases hdone
      obtain ⟨ps, hps, hnames⟩ := nameList_ok hargs
      refine ⟨sign :: value :: mark :: ps, by simpa using h₃.trans hps, fun hmeaning => ?_⟩
      obtain ⟨rfl, henroll⟩ := Phrase.meaning_call_eq_ok_iff.mp hmeaning
      refine ⟨sign.flat :: value.flat :: mark.flat :: ps.map Piece.flat, ?_, henroll⟩
      rw [← htext, ← hnameText]
      exact .call hkind hsign hnameKind (by simp [hleft, Terminal.kind]) hnames

/-- Whatever the phrases mean are sentences of the pieces' tokens, closed by a token of that kind,
and they were enrolled. -/
def SayAll (phrases : List Phrase) (close : Kind) (ps : List Piece) : Prop :=
  ∀ {t : Token} {registry after : Registry} {body : List Statement}, t.kind = close →
    Phrase.meanings phrases registry = (.ok body, after) →
    ∃ inner, Sentences close (ps.map Piece.flat ++ [t]) inner body ∧
      Statement.enrollAll body registry = some after

/-- A reader of bodies reads phrases and their `END`. -/
def ReadsBodies (block : Block) : Prop :=
  ∀ {first : List Terminal} {feed after : Feed} {phrases : List Phrase},
    block first feed = (.ok phrases, after) →
    ∃ ps close, feed.Took (ps ++ [close]) after ∧ close.terminal = .kwEnd ∧
      SayAll phrases .kwEnd ps

theorem SayAll.closed {phrases : List Phrase} {ps : List Piece} {close : Piece}
    (h : SayAll phrases .kwEnd ps) (hclose : close.terminal = .kwEnd) {registry after : Registry}
    {body : List Statement} (hmeaning : Phrase.meanings phrases registry = (.ok body, after)) :
    ∃ inner, Sentences .kwEnd ((ps ++ [close]).map Piece.flat) inner body ∧
      Statement.enrollAll body registry = some after := by
  rw [List.map_append]
  exact h (t := close.flat) (by simp [hclose, Terminal.kind]) hmeaning

theorem loop_ok {block : Block} (hblock : ReadsBodies block) {word : Piece} {feed after : Feed}
    {phrase : Phrase} (hword : word.terminal = .kwLoop)
    (h : loop block feed = (.ok phrase, after)) :
    ∃ ps, feed.Took ps after ∧ phrase.Says (word :: ps) := by
  have hwordKind : word.flat.kind = .kwLoop := by simp [hword, Terminal.kind]
  obtain ⟨count, r₁, hcount, h₁, hrest₁⟩ := (Feed.Took.refl feed).shift (by simp) h
  have hcount : count.terminal = .identifier := by simpa using hcount
  obtain ⟨piece, same, hlook, hrest₂⟩ := Action.bind_eq_ok_iff.mp hrest₁
  obtain ⟨_, _, rfl⟩ := look_eq_ok hlook
  -- With and without `DO` the body is read by the same block.
  have hopened : ∃ opening r₂ phrases first, Feed.Took r₁ opening r₂ ∧
      MaybeDo (opening.map Piece.flat) ∧ block first r₂ = (.ok phrases, after) ∧
      phrase = .loop count phrases := by
    split at hrest₂
    · obtain ⟨opening, r₂, hopening, h₂, hrest₃⟩ := (Feed.Took.refl r₁).shift (by simp) hrest₂
      obtain ⟨phrases, last, hbody, hdone⟩ := Action.bind_eq_ok_iff.mp hrest₃
      cases hdone
      exact ⟨[opening], r₂, phrases, _, h₂, .present (by simp_all [Terminal.kind]), hbody, rfl⟩
    · obtain ⟨phrases, last, hbody, hdone⟩ := Action.bind_eq_ok_iff.mp hrest₂
      cases hdone
      exact ⟨[], r₁, phrases, _, .refl r₁, .absent, hbody, rfl⟩
  obtain ⟨opening, r₂, phrases, first, hopening, hmaybe, hbody, rfl⟩ := hopened
  obtain ⟨ps, close, hps, hclose, hsay⟩ := hblock hbody
  refine ⟨count :: (opening ++ (ps ++ [close])), ?_, fun hmeaning => ?_⟩
  · simpa using (h₁.trans hopening).trans hps
  · obtain ⟨body, last, hmeanings, hdone⟩ := Action.bind_eq_ok_iff.mp hmeaning
    cases hdone
    obtain ⟨inner, hbody, henroll⟩ := hsay.closed hclose hmeanings
    refine ⟨count.flat :: (opening.map Piece.flat ++ inner), ?_, henroll⟩
    rw [← Piece.flat_text (by simp [hcount]), List.map_cons, List.map_cons, List.map_append]
    exact .loop hwordKind (by simp [hcount, Terminal.kind]) hmaybe hbody

theorem definition_ok {block : Block} (hblock : ReadsBodies block) {word : Piece}
    {feed after : Feed} {phrase : Phrase} (hword : word.terminal = .kwProgram)
    (h : definition block feed = (.ok phrase, after)) :
    ∃ ps, feed.Took ps after ∧ phrase.Says (word :: ps) := by
  have hwordKind : word.flat.kind = .kwProgram := by simp [hword, Terminal.kind]
  obtain ⟨name, r₁, hname, h₁, hrest₁⟩ := (Feed.Took.refl feed).shift (by simp) h
  have hname : name.terminal = .identifier := by simpa using hname
  obtain ⟨left, r₂, hleft, h₂, hrest₂⟩ := h₁.shift (by simp) hrest₁
  have hleft : left.flat.kind = .leftParen := by simp_all [Terminal.kind]
  obtain ⟨params, r₃, hparams, hrest₃⟩ := Action.bind_eq_ok_iff.mp hrest₂
  obtain ⟨ps, hps, hnames⟩ := nameList_ok hparams
  obtain ⟨opening, r₄, hopening, h₄, hrest₄⟩ := (h₂.trans hps).shift (by simp) hrest₃
  have hopening : opening.flat.kind = .kwDo := by simp_all [Terminal.kind]
  obtain ⟨phrases, last, hbody, hdone⟩ := Action.bind_eq_ok_iff.mp hrest₄
  cases hdone
  obtain ⟨qs, close, hqs, hclose, hsay⟩ := hblock hbody
  refine ⟨name :: left :: (ps ++ opening :: (qs ++ [close])), by simpa using h₄.trans hqs, ?_⟩
  intro registry after s hmeaning
  obtain ⟨body, inside, hmeanings, hrest⟩ := Action.bind_eq_ok_iff.mp hmeaning
  split at hrest
  · cases hrest
  · next hnodup =>
    obtain ⟨_, last, hdefine, hdone⟩ := Action.bind_eq_ok_iff.mp hrest
    cases hdone
    obtain ⟨hnew, rfl⟩ := Registry.define_eq_ok hdefine
    obtain ⟨inner, hsentences, henroll⟩ := hsay.closed hclose hmeanings
    refine ⟨name.flat :: left.flat :: (ps.map Piece.flat ++ opening.flat :: inner), ?_,
      Statement.enroll_define.mpr ⟨inside, henroll, hnew, rfl⟩⟩
    rw [← Piece.flat_text (by simp [hname]), List.map_cons, List.map_cons, List.map_cons,
      List.map_append, List.map_cons]
    exact .define hwordKind (by simp [hname, Terminal.kind]) hleft hnames
      (Decidable.not_not.mp hnodup) hopening hsentences

theorem targetTerminals : ItemTerminals [.identifier, .string] targetKinds :=
  ⟨by rintro (_ | _) <;> simp [Terminal.kind, targetKinds], by simp⟩

theorem itemTerminals : ItemTerminals [.identifier, .number, .string] itemKinds :=
  ⟨by rintro (_ | _) <;> simp [Terminal.kind, itemKinds], by simp⟩

theorem statement_ok {block : Block} (hblock : ReadsBodies block) {feed after : Feed}
    {phrase : Phrase} (h : statement block feed = (.ok phrase, after)) :
    ∃ ps, feed.Took ps after ∧ phrase.Says ps := by
  obtain ⟨word, r₁, hword, h₁, hrest₁⟩ := (Feed.Took.refl feed).shift (by simp [starts]) h
  simp only [starts, List.mem_cons, List.not_mem_nil, or_false] at hword
  rw [List.nil_append] at h₁
  -- `OUTPUT` and `PRINT` are two terminals of one kind.
  have houtput : word.flat.kind = .kwPrint →
      (itemList [.identifier, .number, .string] >>= fun items => pure (.output items)) r₁ =
        (.ok phrase, after) → ∃ ps, feed.Took ps after ∧ phrase.Says ps := by
    intro hkind hrest
    obtain ⟨items, r₂, hitems, hdone⟩ := Action.bind_eq_ok_iff.mp hrest
    cases hdone
    obtain ⟨ps, hps, hlist⟩ := itemList_ok itemTerminals hitems
    refine ⟨word :: ps, h₁.trans hps, fun hmeaning => ?_⟩
    obtain ⟨tokens, htokens, hnumbers⟩ := Action.ofExcept_bind_eq_ok_iff.mp hmeaning
    obtain ⟨_, hcheck, hdone⟩ := Action.ofExcept_bind_eq_ok_iff.mp hnumbers
    cases hdone
    rw [Piece.mapM_token_eq_ok htokens] at hcheck ⊢
    exact ⟨ps.map Piece.flat, .output hkind hlist hcheck, rfl⟩
  rcases hword with hword | hword | hword | hword | hword | hword
  · rw [hword] at hrest₁
    obtain ⟨ps, hps, hsays⟩ := assignment_ok hword hrest₁
    exact ⟨word :: ps, h₁.trans hps, hsays⟩
  · rw [hword] at hrest₁
    obtain ⟨items, r₂, hitems, hdone⟩ := Action.bind_eq_ok_iff.mp hrest₁
    cases hdone
    obtain ⟨ps, hps, hlist⟩ := itemList_ok targetTerminals hitems
    refine ⟨word :: ps, h₁.trans hps, fun hmeaning => ?_⟩
    obtain ⟨tokens, htokens, hdone⟩ := Action.ofExcept_bind_eq_ok_iff.mp hmeaning
    cases hdone
    rw [Piece.mapM_token_eq_ok htokens]
    exact ⟨ps.map Piece.flat, .input (by simp [hword, Terminal.kind]) hlist, rfl⟩
  · rw [hword] at hrest₁
    obtain ⟨ps, hps, hsays⟩ := loop_ok hblock hword hrest₁
    exact ⟨word :: ps, h₁.trans hps, hsays⟩
  · rw [hword] at hrest₁
    exact houtput (by simp [hword, Terminal.kind]) hrest₁
  · rw [hword] at hrest₁
    exact houtput (by simp [hword, Terminal.kind]) hrest₁
  · rw [hword] at hrest₁
    obtain ⟨ps, hps, hsays⟩ := definition_ok hblock hword hrest₁
    exact ⟨word :: ps, h₁.trans hps, hsays⟩

theorem phrases_front {fuel : Nat} {close : Terminal} {expected : List Terminal}
    {feed after : Feed} {found : List Phrase}
    (h : phrases fuel close expected feed = (.ok found, after)) :
    ∃ piece, feed.front = .ok piece ∧ piece.terminal ∈ expected := by
  cases fuel with
  | zero => cases h
  | succ fuel =>
    obtain ⟨piece, same, hlook, _⟩ := Action.bind_eq_ok_iff.mp h
    obtain ⟨hfront, hmem, _⟩ := look_eq_ok hlook
    exact ⟨piece, hfront, hmem⟩

/-- What follows a statement ends it. -/
theorem ends_of_closers {feed after : Feed} {ps : List Piece} {t : Token} {piece : Piece}
    (htook : feed.Took ps after) (ht : t.Ends) (hfront : feed.front = .ok piece)
    (hpiece : piece.terminal ∈ closers) :
    ∃ next us, ps.map Piece.flat ++ [t] = next :: us ∧ next.Ends := by
  cases ps with
  | nil => exact ⟨t, [], rfl, ht⟩
  | cons first rest =>
    refine ⟨first.flat, rest.map Piece.flat ++ [t], rfl, ?_⟩
    have hfirst : first = piece := by
      rw [Feed.front, htook.1] at hfront
      simpa using hfront
    subst hfirst
    simp only [closers, List.mem_cons, List.not_mem_nil, or_false] at hpiece
    unfold Token.Ends
    rcases hpiece with hkind | hkind | hkind <;> simp [hkind, Terminal.kind]

theorem phrases_ok {fuel : Nat} {close : Terminal} (hclose : close = .finish ∨ close = .kwEnd)
    {expected : List Terminal} {feed after : Feed} {found : List Phrase}
    (h : phrases fuel close expected feed = (.ok found, after)) :
    ∃ ps piece, feed.Took ps after ∧ after.front = .ok piece ∧ piece.terminal = close ∧
      SayAll found close.kind ps := by
  induction fuel generalizing close expected feed after found with
  | zero => cases h
  | succ fuel ih =>
    obtain ⟨piece, same, hlook, hrest⟩ := Action.bind_eq_ok_iff.mp h
    obtain ⟨hfront, _, rfl⟩ := look_eq_ok hlook
    split at hrest
    · obtain ⟨sep, r₁, hsep, h₁, hrest₁⟩ := (Feed.Took.refl feed).shift (by simp) hrest
      obtain ⟨ps, last, hps, hlast, hkind, hsay⟩ := ih hclose hrest₁
      refine ⟨sep :: ps, last, h₁.trans hps, hlast, hkind, fun ht hmeaning => ?_⟩
      obtain ⟨inner, hsentences, henroll⟩ := hsay ht hmeaning
      exact ⟨inner, .semicolon (by simp_all [Terminal.kind]) hsentences, henroll⟩
    · split at hrest
      · split at hrest
        · next hkind =>
          cases hrest
          refine ⟨[], piece, .refl feed, hfront, hkind, fun ht hmeaning => ?_⟩
          cases hmeaning
          exact ⟨[], .close ht, rfl⟩
        · cases hrest
      · obtain ⟨phrase, r₁, hphrase, hrest₁⟩ := Action.bind_eq_ok_iff.mp hrest
        have hblock : ReadsBodies fun first => do
            let body ← phrases fuel .kwEnd first
            let _ ← shift [.kwEnd]
            return body := by
          intro first feed after found hbody
          obtain ⟨body, r, hphrases, hend⟩ := Action.bind_eq_ok_iff.mp hbody
          obtain ⟨ps, _, hps, _, _, hsay⟩ := ih (.inr rfl) hphrases
          obtain ⟨last, r', hlast, htook, hdone⟩ := hps.shift (by simp) hend
          cases hdone
          exact ⟨ps, last, htook, by simpa using hlast, hsay⟩
        obtain ⟨qs, hqs, hsays⟩ := statement_ok hblock hphrase
        obtain ⟨more, r₂, hmore, hdone⟩ := Action.bind_eq_ok_iff.mp hrest₁
        cases hdone
        obtain ⟨ps, last, hps, hlast, hkind, hsay⟩ := ih hclose hmore
        refine ⟨qs ++ ps, last, hqs.trans hps, hlast, hkind, fun {t} _ _ _ ht hmeaning => ?_⟩
        obtain ⟨s, middle, hs, hmeaning'⟩ := Action.bind_eq_ok_iff.mp hmeaning
        obtain ⟨body, last', hbody, hdone⟩ := Action.bind_eq_ok_iff.mp hmeaning'
        cases hdone
        obtain ⟨inner, hsentence, henroll⟩ := hsays hs
        obtain ⟨inners, hsentences, henrollAll⟩ := hsay ht hbody
        have hends : t.Ends := by
          unfold Token.Ends
          rcases hclose with rfl | rfl <;> simp [ht, Terminal.kind]
        obtain ⟨front, hfront, hmem⟩ := phrases_front hmore
        obtain ⟨next, us, hnext, hnextEnds⟩ := ends_of_closers hps hends hfront hmem
        refine ⟨inner ++ inners, ?_, Statement.enrollAll_cons.mpr ⟨middle, henroll, henrollAll⟩⟩
        rw [List.map_append, List.append_assoc, hnext]
        rw [hnext] at hsentences
        exact .cons hsentence hnextEnds hsentences

/-- The terminal of a word is the one of its kind. -/
theorem wordTerminal_kind (word : String) : (wordTerminal word).kind = Lexer.wordKind word := by
  unfold wordTerminal Lexer.wordKind
  cases hlookup : Lexer.keywords.lookup word with
  | some kind =>
    have hkinds : ∀ entry ∈ Lexer.keywords,
        ((keywords.lookup entry.1).getD .identifier).kind = entry.2 := by decide
    exact hkinds _ (Lexeme.mem_of_lookup hlookup)
  | none =>
    -- Both tables have the same words.
    have hwords : ∀ entry ∈ keywords, (Lexer.keywords.lookup entry.1).isSome = true := by decide
    cases hother : keywords.lookup word with
    | none => rfl
    | some terminal =>
      have hsome := hwords _ (Lexeme.mem_of_lookup hother)
      rw [hlookup] at hsome
      cases hsome

theorem markTerminal_kind (c : Char) : (markTerminal c).kind = Lexer.markKind c := by
  unfold markTerminal
  split
  · rfl
  · rfl
  · rfl
  · rfl
  · unfold Lexer.markKind
    split <;> simp_all [Terminal.kind]

/-- What holds of the piece of every lexeme holds of all pieces of a text. -/
theorem piecesFrom_forall {P : Piece → Prop}
    (h : ∀ {cs : List Char} {lexeme : Lexeme} {terminal : Terminal} (place : Place),
      Lexeme.read? cs = some lexeme → terminal? lexeme = .ok (some terminal) →
      P ⟨terminal, String.ofList lexeme.chars, place⟩) (count : Nat) (place : Place)
    (cs : List Char) : ∀ piece ∈ (piecesFrom count place cs).1, P piece := by
  induction count generalizing place cs with
  | zero => simp [piecesFrom]
  | succ count ih =>
    rw [piecesFrom]
    simp only
    split
    · simp
    · next lexeme hread =>
      split
      · simp
      · next found hfound =>
        cases found with
        | none => exact ih _ _
        | some terminal =>
          rintro piece (_ | ⟨_, hpiece⟩)
          · exact h _ hread hfound
          · exact ih _ _ piece hpiece

theorem Feed.ofSource_pieces (source : String) : (Feed.ofSource source).pieces =
    (piecesFrom (source.toList.length + 1) ⟨1, 1⟩ source.toList).1 := rfl

theorem pieces_ne_finish (source : String) :
    ∀ piece ∈ (Feed.ofSource source).pieces, piece.terminal ≠ .finish := by
  rw [Feed.ofSource_pieces]
  refine piecesFrom_forall (P := fun piece => piece.terminal ≠ .finish) ?_ _ _ _
  intro cs lexeme terminal place _ hterminal hfinish
  have hkind : terminal.kind = .eof := congrArg Terminal.kind hfinish
  cases lexeme with
  | word text =>
    cases hterminal
    exact Lexeme.wordKind_ne_eof _ ((wordTerminal_kind _).symm.trans hkind)
  | mark c =>
    cases hterminal
    rw [markTerminal_kind] at hkind
    exact Lexeme.Denotes.kind_ne_eof (.mark c) hkind
  | _ => cases hterminal <;> cases hkind

/-- No piece is an end, so all pieces are used up where the end is seen. -/
theorem pieces_eq_nil_of_finish {source : String} {ps : List Piece} {last : Feed} {piece : Piece}
    (htook : (Feed.ofSource source).Took ps last) (hfront : last.front = .ok piece)
    (hfinish : piece.terminal = .finish) : last.pieces = [] := by
  cases hpieces : last.pieces with
  | nil => rfl
  | cons next rest =>
    simp only [Feed.front, hpieces, Except.ok.injEq] at hfront
    have hmem : next ∈ (Feed.ofSource source).pieces := by simp [htook.1, hpieces]
    exact absurd (hfront ▸ hfinish) (pieces_ne_finish source next hmem)

/-- The texts of the pieces have the form that their terminals promise. -/
theorem pieces_lexical (source : String) :
    ∀ piece ∈ (Feed.ofSource source).pieces, piece.flat.Lexical := by
  rw [Feed.ofSource_pieces]
  refine piecesFrom_forall (P := fun piece => piece.flat.Lexical) ?_ _ _ _
  intro cs lexeme terminal place hread hterminal
  cases lexeme with
  | word text =>
    cases hterminal
    obtain ⟨hnumber, hstring⟩ := Lexeme.wordKind_not_literal (String.ofList text)
    rw [← wordTerminal_kind] at hnumber hstring
    unfold Token.Lexical
    rw [Piece.flat_kind]
    dsimp only
    split
    · next hkind =>
      rw [Piece.flat_text fun h => hstring (congrArg Terminal.kind h)]
      exact ⟨by simpa [Lexeme.chars] using Lexeme.isName_of_read? hread,
        by rw [wordTerminal_kind] at hkind; exact hkind⟩
    · contradiction
    · contradiction
    · trivial
  | number digits =>
    cases hterminal
    show Lexeme.isNumeral (String.ofList digits).toList = true
    simpa using Lexeme.isNumeral_of_read? hread
  | mark c =>
    cases hterminal
    have hkind := Lexeme.markKind_cases c
    rw [← markTerminal_kind] at hkind
    unfold Token.Lexical
    rw [Piece.flat_kind]
    dsimp only
    split <;> simp_all
  | _ => cases hterminal <;> trivial

/-- What the grammar makes of a source are statements whose sentences the pieces are, where the
calls and definitions fit. -/
theorem parseByGrammar_ok {source : String} {registry after : Registry} {body : List Statement}
    (h : parseByGrammar source registry = (.ok body, after)) :
    (Feed.ofSource source).fault = none ∧
      (∀ t : Token, t.kind = .eof →
        ∃ inner, Sentences .eof ((Feed.ofSource source).pieces.map Piece.flat ++ [t]) inner body) ∧
      Statement.enrollAll body registry = some after := by
  unfold parseByGrammar at h
  split at h
  · next found last hprogram =>
    obtain ⟨ps, piece, htook, hfront, hfinish, hsay⟩ := phrases_ok (.inl rfl) hprogram
    have hnil := pieces_eq_nil_of_finish htook hfront hfinish
    have hfault : last.fault = none := by
      cases hlast : last.fault with
      | none => rfl
      | some e => simp [Feed.front, hnil, hlast] at hfront
    have hpieces : (Feed.ofSource source).pieces = ps := by simpa [hnil] using htook.1
    rw [hpieces]
    refine ⟨htook.2.symm.trans hfault, fun t ht => ?_, ?_⟩
    · obtain ⟨inner, hsentences, _⟩ := hsay ht h
      exact ⟨inner, hsentences⟩
    · obtain ⟨_, _, henroll⟩ := hsay (t := ⟨.eof, .absent, ⟨1, 1⟩, false⟩) rfl h
      exact henroll
  · cases h

end LoopLanguage.Grammar
