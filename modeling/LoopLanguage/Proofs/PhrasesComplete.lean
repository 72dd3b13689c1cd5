import LoopLanguage.Proofs.Phrases

/-!
Every row of sentences that pieces stand for is read by the grammar, as phrases that mean those
statements wherever the calls and definitions fit.
-/

namespace LoopLanguage.Grammar

open LoopLanguage.Action (Succeeds)

/-- Terminals are told apart by their kinds, apart from the two words for output. -/
theorem Terminal.eq_of_kind {a b : Terminal} (h : a.kind = b.kind) (hb : b.kind ≠ .kwPrint) :
    a = b := by
  cases b <;> cases a <;> simp_all [kind]

namespace Piece

/-- The escapes of a literal can be read. -/
def Sound (piece : Piece) : Prop := piece.terminal = .string → piece.literal.isSome

theorem Sound.exists_token {piece : Piece} (h : piece.Sound) (hitem : piece.IsItem) :
    ∃ t, piece.token = .ok t := by
  unfold Piece.token
  split
  · next hstring =>
    obtain ⟨text, htext⟩ := Option.isSome_iff_exists.mp (h hstring)
    rw [← literal, htext]
    exact ⟨_, rfl⟩
  · exact ⟨_, rfl⟩
  · exact ⟨_, rfl⟩
  · simp_all [IsItem]

theorem Sound.token {piece : Piece} (h : piece.Sound) (hitem : piece.IsItem) :
    piece.token = .ok piece.flat := by
  obtain ⟨t, htoken⟩ := h.exists_token hitem
  rw [htoken, token_eq_flat htoken]

theorem Sound.value {piece : Piece} (h : piece.Sound) (hkind : piece.terminal = .number) :
    piece.value = piece.flat.value := by
  rw [Piece.value, h.token (by simp [IsItem, hkind])]
  rfl

theorem terminal_of_kind {piece : Piece} {kind : Kind} (terminal : Terminal)
    (h : piece.flat.kind = kind) (hkind : terminal.kind = kind) (hprint : kind ≠ .kwPrint) :
    piece.terminal = terminal :=
  Terminal.eq_of_kind (h.trans hkind.symm) (hkind ▸ hprint)

theorem identifier {piece : Piece} (h : piece.flat.kind = .identifier) :
    piece.terminal = .identifier ∧ piece.flat.text = piece.atom := by
  have hterminal := terminal_of_kind .identifier h rfl (by simp)
  exact ⟨hterminal, flat_text (by simp [hterminal])⟩

end Piece

namespace Feed

/-- The feed has these pieces and that fault. -/
def At (feed : Feed) (pieces : List Piece) (fault : Option Error) : Prop :=
  feed.pieces = pieces ∧ feed.fault = fault

variable {feed r : Feed} {piece : Piece} {us : List Piece} {fault : Option Error}
  {expected : List Terminal} {α : Type} {Q : α → Feed → Prop}

theorem At.look (h : r.At (piece :: us) fault) (hmem : piece.terminal ∈ expected) :
    Grammar.look expected r = (.ok piece, r) := by
  unfold Grammar.look Feed.front
  rw [h.1]
  simp [hmem]

theorem At.shift (h : r.At (piece :: us) fault) (hmem : piece.terminal ∈ expected)
    {f : Piece → Action Feed α} (hrest : ∀ r', r'.At us fault → Succeeds (f piece) r' Q) :
    Succeeds (Grammar.shift expected >>= f) r Q := by
  have hdrop : r.drop.At us fault := by
    unfold At Feed.drop
    rw [h.1]
    exact ⟨rfl, h.2⟩
  have hshift : Grammar.shift expected r = (.ok piece, r.drop) := by
    rw [Grammar.shift, Action.bind_ok (h.look hmem)]
    rfl
  exact Succeeds.bind hshift (hrest _ hdrop)

end Feed

/-- What comes next is one of these terminals; past the last piece that is the end. -/
def Stops (us : List Piece) (fault : Option Error) (terminals : List Terminal) : Prop :=
  match us with
  | piece :: _ => piece.terminal ∈ terminals
  | [] => fault = none ∧ .finish ∈ terminals

theorem Stops.look {us : List Piece} {fault : Option Error} {terminals expected : List Terminal}
    (h : Stops us fault terminals) (hsub : ∀ terminal ∈ terminals, terminal ∈ expected)
    {r : Feed} (hr : r.At us fault) :
    ∃ piece, look expected r = (.ok piece, r) ∧ piece.terminal ∈ terminals := by
  unfold Stops at h
  cases us with
  | nil =>
    refine ⟨⟨.finish, "", r.last⟩, ?_, h.2⟩
    unfold Grammar.look Feed.front
    rw [hr.1, hr.2, h.1]
    simp [hsub _ h.2]
  | cons piece us => exact ⟨piece, hr.look (hsub _ h), h⟩

section Lists

variable {ps us : List Piece} {fault : Option Error} {r : Feed}

theorem namesFrom_accepts {name : Piece} {ts : List Token} {names : List Atom}
    (hnames : Names ts names) (hts : (name :: ps).map Piece.flat = ts) {count : Nat}
    (hcount : ps.length ≤ count) (h : r.At (ps ++ us) fault) :
    Succeeds (namesFrom count name) r fun found r' =>
      found.map Piece.atom = names ∧ r'.At us fault := by
  induction count generalizing name ps ts names r with
  | zero =>
    rw [Nat.le_zero, List.length_eq_zero_iff] at hcount
    subst hcount
    subst hts
    cases hnames
  | succ count ih =>
    cases hnames with
    | @last first close hname hclose =>
      obtain ⟨rfl, hps⟩ := List.cons.inj hts
      obtain ⟨close, rfl, rfl⟩ := List.map_eq_singleton_iff.mp hps
      have hterminal := Piece.terminal_of_kind .rightParen hclose rfl (by simp)
      refine h.shift (by simp [hterminal]) fun r' h' => ?_
      rw [if_neg (by simp [hterminal])]
      exact Succeeds.of_eq rfl ⟨by simp [(Piece.identifier hname).2], h'⟩
    | @more first comma rest names hname hcomma hrest =>
      obtain ⟨rfl, hps⟩ := List.cons.inj hts
      obtain ⟨comma, qs, rfl, rfl, hqs⟩ := List.map_eq_cons_iff.mp hps
      have hterminal := Piece.terminal_of_kind .comma hcomma rfl (by simp)
      refine h.shift (by simp [hterminal]) fun r' h' => ?_
      rw [if_pos hterminal]
      obtain ⟨t, _, hcons, hsecond⟩ := hrest.head
      obtain ⟨second, qs, rfl, rfl, _⟩ := List.map_eq_cons_iff.mp (hqs.trans hcons)
      refine h'.shift (by simp [(Piece.identifier hsecond).1]) fun r'' h'' => ?_
      simp only [List.length_cons] at hcount
      obtain ⟨found, last, hrun, rfl, hlast⟩ := ih hrest hqs (by omega) h''
      exact Succeeds.bind hrun
        (Succeeds.of_eq rfl ⟨by simp [(Piece.identifier hname).2], hlast⟩)

theorem nameList_accepts {names : List Atom} (hnames : NameList (ps.map Piece.flat) names)
    (h : r.At (ps ++ us) fault) :
    Succeeds nameList r fun found r' => found.map Piece.atom = names ∧ r'.At us fault := by
  generalize hts : ps.map Piece.flat = ts at hnames
  cases hnames with
  | none hclose =>
    obtain ⟨close, rfl, rfl⟩ := List.map_eq_singleton_iff.mp hts
    have hterminal := Piece.terminal_of_kind .rightParen hclose rfl (by simp)
    refine h.shift (by simp [hterminal]) fun r' h' => ?_
    rw [if_pos hterminal]
    exact Succeeds.of_eq rfl ⟨rfl, h'⟩
  | some hsome =>
    obtain ⟨t, _, hcons, hfirst⟩ := hsome.head
    obtain ⟨first, qs, rfl, rfl, _⟩ := List.map_eq_cons_iff.mp (hts.trans hcons)
    have hterminal := (Piece.identifier hfirst).1
    refine h.shift (by simp [hterminal]) fun r' h' => ?_
    rw [if_neg (by simp [hterminal])]
    refine Succeeds.bind rfl (namesFrom_accepts hsome hts ?_ h')
    have hlength := congrArg List.length h'.1
    simp only [List.append_eq, List.length_append] at hlength
    omega

variable {terminals : List Terminal} {kinds : List Kind} (hkinds : ItemTerminals terminals kinds)
  (hus : Stops us fault closers)
include hkinds hus

theorem itemsFrom_accepts {items : List Token} (hitems : Items kinds (ps.map Piece.flat) items)
    (hsound : ∀ p ∈ ps, p.Sound) {count : Nat} (hcount : ps.length < count)
    (h : r.At (ps ++ us) fault) :
    Succeeds (itemsFrom terminals count) r fun found r' =>
      found.mapM Piece.token = .ok items ∧ r'.At us fault := by
  induction count generalizing ps items r with
  | zero => exact absurd hcount (Nat.not_lt_zero _)
  | succ count ih =>
    generalize hts : ps.map Piece.flat = ts at hitems
    cases hitems with
    | done =>
      obtain rfl := List.map_eq_nil_iff.mp hts
      obtain ⟨sep, hlook, hsep⟩ := hus.look (fun t ht => List.mem_cons_of_mem .comma ht) h
      refine Succeeds.bind hlook ?_
      rw [if_neg (by rintro hcomma; simp [hcomma, closers] at hsep)]
      exact Succeeds.of_eq rfl ⟨rfl, h⟩
    | trailing hcomma _ =>
      obtain ⟨comma, rfl, rfl⟩ := List.map_eq_singleton_iff.mp hts
      have hterminal := Piece.terminal_of_kind .comma hcomma rfl (by simp)
      refine Succeeds.bind (h.look (by simp [hterminal])) ?_
      rw [if_pos hterminal]
      refine h.shift (by simp [hterminal]) fun r' h' => ?_
      obtain ⟨item, hlook, hitem⟩ := hus.look (fun t ht => List.mem_append_right terminals ht) h'
      refine Succeeds.bind hlook ?_
      rw [if_neg]
      · exact Succeeds.of_eq rfl ⟨rfl, h'⟩
      · intro hmem
        have hliteral := hkinds.2 (List.contains_iff_mem.mp hmem)
        simp only [closers, List.mem_cons, List.not_mem_nil, or_false] at hitem
        rcases hitem with hkind | hkind | hkind <;> simp [hkind] at hliteral
    | more hcomma _ hitem _ hrest =>
      obtain ⟨comma, qs, rfl, rfl, hqs⟩ := List.map_eq_cons_iff.mp hts
      obtain ⟨item, qs, rfl, rfl, rfl⟩ := List.map_eq_cons_iff.mp hqs
      have hterminal := Piece.terminal_of_kind .comma hcomma rfl (by simp)
      have hmem : item.terminal ∈ terminals := (hkinds.1 _).mpr hitem
      refine Succeeds.bind (h.look (by simp [hterminal])) ?_
      rw [if_pos hterminal]
      refine h.shift (by simp [hterminal]) fun r' h' => ?_
      refine Succeeds.bind (h'.look (List.mem_append_left _ hmem)) ?_
      rw [if_pos (List.contains_iff_mem.mpr hmem)]
      refine h'.shift hmem fun r'' h'' => ?_
      simp only [List.length_cons] at hcount
      obtain ⟨found, last, hrun, hfound, hlast⟩ :=
        ih hrest (fun p hp => hsound p (by simp [hp])) (by omega) h''
      refine Succeeds.bind hrun (Succeeds.of_eq rfl ⟨?_, hlast⟩)
      rw [List.mapM_cons, (hsound item (by simp)).token (hkinds.2 hmem), hfound]
      rfl

theorem itemList_accepts {items : List Token} (hitems : ItemList kinds (ps.map Piece.flat) items)
    (hsound : ∀ p ∈ ps, p.Sound) (h : r.At (ps ++ us) fault) :
    Succeeds (itemList terminals) r fun found r' =>
      found.mapM Piece.token = .ok items ∧ r'.At us fault := by
  generalize hts : ps.map Piece.flat = ts at hitems
  cases hitems with
  | mk hfirst hrest =>
    obtain ⟨first, qs, rfl, rfl, rfl⟩ := List.map_eq_cons_iff.mp hts
    have hmem : first.terminal ∈ terminals := (hkinds.1 _).mpr hfirst
    refine h.shift hmem fun r' h' => ?_
    have hlength := congrArg List.length h'.1
    simp only [List.append_eq, List.length_append] at hlength
    obtain ⟨found, last, hrun, hfound, hlast⟩ :=
      @itemsFrom_accepts qs us fault r' terminals kinds hkinds hus _ hrest
        (fun p hp => hsound p (by simp [hp])) (r'.pieces.length + 1) (by omega) h'
    refine Succeeds.bind rfl (Succeeds.bind hrun (Succeeds.of_eq rfl ⟨?_, hlast⟩))
    rw [List.mapM_cons, (hsound first (by simp)).token (hkinds.2 hmem), hfound]
    rfl

end Lists

/-- The phrase means the statement wherever that can be enrolled. -/
def Phrase.Means (phrase : Phrase) (s : Statement) : Prop :=
  ∀ {registry after : Registry}, s.enroll registry = some after →
    phrase.meaning registry = (.ok s, after)

def MeanAll (phrases : List Phrase) (body : List Statement) : Prop :=
  ∀ {registry after : Registry}, Statement.enrollAll body registry = some after →
    Phrase.meanings phrases registry = (.ok body, after)

/-- The first terminals of a body. -/
def bodyStarts : List Terminal := .separator :: .kwEnd :: starts

/-- The reader reads every body of at most `limit` pieces, its `END` included. -/
def AcceptsBodies (limit : Nat) (block : Block) : Prop :=
  ∀ ⦃r : Feed⦄ ⦃ps us : List Piece⦄ ⦃fault : Option Error⦄ ⦃inner : List Token⦄
    ⦃body : List Statement⦄, ps.length ≤ limit → (∀ p ∈ ps, p.Sound) →
    Sentences .kwEnd (ps.map Piece.flat) inner body → r.At (ps ++ us) fault →
    Succeeds (block bodyStarts) r fun found r' => MeanAll found body ∧ r'.At us fault

section Statements

variable {ps us : List Piece} {fault : Option Error} {r : Feed} {target word : Piece}

theorem output_accepts {items : List Token} (hitems : ItemList itemKinds (ps.map Piece.flat) items)
    (hnumbers : Parser.checkNumbers items = .ok ()) (hsound : ∀ p ∈ ps, p.Sound)
    (hus : Stops us fault closers) (h : r.At (ps ++ us) fault) :
    Succeeds (itemList [.identifier, .number, .string] >>= fun found => pure (Phrase.output found))
      r fun phrase r' => phrase.Means (.output items) ∧ r'.At us fault := by
  obtain ⟨found, last, hrun, hfound, hlast⟩ := itemList_accepts itemTerminals hus hitems hsound h
  refine Succeeds.bind hrun (Succeeds.of_eq rfl ⟨fun henroll => ?_, hlast⟩)
  cases henroll
  rw [Phrase.meaning, hfound]
  show (Action.ofExcept (Parser.checkNumbers items) >>= _) _ = _
  rw [hnumbers]
  rfl

theorem input_accepts {targets : List Token}
    (htargets : ItemList targetKinds (ps.map Piece.flat) targets) (hsound : ∀ p ∈ ps, p.Sound)
    (hus : Stops us fault closers) (h : r.At (ps ++ us) fault) :
    Succeeds (itemList [.identifier, .string] >>= fun found => pure (Phrase.input found)) r
      fun phrase r' => phrase.Means (.input targets) ∧ r'.At us fault := by
  obtain ⟨found, last, hrun, hfound, hlast⟩ :=
    itemList_accepts targetTerminals hus htargets hsound h
  refine Succeeds.bind hrun (Succeeds.of_eq rfl ⟨fun henroll => ?_, hlast⟩)
  cases henroll
  rw [Phrase.meaning, hfound]
  rfl

theorem loop_accepts {limit : Nat} {block : Block} (hblock : AcceptsBodies limit block)
    {count : Piece} {opening qs : List Piece} {inner : List Token} {body : List Statement}
    (hcount : count.flat.kind = .identifier) (hopening : MaybeDo (opening.map Piece.flat))
    (hbody : Sentences .kwEnd (qs.map Piece.flat) inner body) (hlimit : qs.length ≤ limit)
    (hsound : ∀ p ∈ qs, p.Sound) (h : r.At (count :: (opening ++ (qs ++ us))) fault) :
    Succeeds (loop block) r fun phrase r' =>
      phrase.Means (.loop count.flat.text body) ∧ r'.At us fault := by
  obtain ⟨hterminal, htext⟩ := Piece.identifier hcount
  have hmeans : ∀ {found : List Phrase}, MeanAll found body →
      (Phrase.loop count found).Means (.loop count.flat.text body) := by
    intro found hfound registry after henroll
    rw [Phrase.meaning, Action.bind_ok (hfound henroll), htext]
    rfl
  refine h.shift (by simp [hterminal]) fun r₁ h₁ => ?_
  generalize hts : opening.map Piece.flat = ts at hopening
  cases hopening with
  | present hdo =>
    obtain ⟨word, rfl, rfl⟩ := List.map_eq_singleton_iff.mp hts
    have hword := Piece.terminal_of_kind .kwDo hdo rfl (by simp)
    refine Succeeds.bind (h₁.look (by simp [hword])) ?_
    rw [if_pos hword]
    refine h₁.shift (by simp [hword]) fun r₂ h₂ => ?_
    obtain ⟨found, last, hrun, hfound, hlast⟩ := hblock hlimit hsound hbody h₂
    exact Succeeds.bind hrun (Succeeds.of_eq rfl ⟨hmeans hfound, hlast⟩)
  | absent =>
    obtain rfl := List.map_eq_nil_iff.mp hts
    obtain ⟨t, _, hqs, hhead⟩ := hbody.head
    obtain ⟨first, rest, rfl, rfl, _⟩ := List.map_eq_cons_iff.mp hqs
    have hstart : first.terminal ∈ bodyStarts ∧ first.terminal ≠ .kwDo := by
      rw [Piece.flat_kind] at hhead
      cases hfirst : first.terminal <;>
        simp_all [Terminal.kind, sentenceStarts, bodyStarts, starts]
    refine Succeeds.bind (h₁.look (List.mem_cons_of_mem _ hstart.1)) ?_
    rw [if_neg hstart.2]
    obtain ⟨found, last, hrun, hfound, hlast⟩ := hblock hlimit hsound hbody h₁
    exact Succeeds.bind hrun (Succeeds.of_eq rfl ⟨hmeans hfound, hlast⟩)

theorem definition_accepts {limit : Nat} {block : Block} (hblock : AcceptsBodies limit block)
    {name left opening : Piece} {qs : List Piece} {inner : List Token} {params : List Atom}
    {body : List Statement} (hname : name.flat.kind = .identifier)
    (hleft : left.flat.kind = .leftParen) (hparams : NameList (ps.map Piece.flat) params)
    (hnodup : params.Nodup) (hopening : opening.flat.kind = .kwDo)
    (hbody : Sentences .kwEnd (qs.map Piece.flat) inner body) (hlimit : qs.length ≤ limit)
    (hsound : ∀ p ∈ qs, p.Sound)
    (h : r.At (name :: left :: (ps ++ opening :: (qs ++ us))) fault) :
    Succeeds (definition block) r fun phrase r' =>
      phrase.Means (.define name.flat.text params body) ∧ r'.At us fault := by
  obtain ⟨hterminal, htext⟩ := Piece.identifier hname
  have hleft := Piece.terminal_of_kind .leftParen hleft rfl (by simp)
  have hopening := Piece.terminal_of_kind .kwDo hopening rfl (by simp)
  refine h.shift (by simp [hterminal]) fun r₁ h₁ => ?_
  refine h₁.shift (by simp [hleft]) fun r₂ h₂ => ?_
  obtain ⟨found, r₃, hrun, rfl, h₃⟩ := nameList_accepts hparams h₂
  refine Succeeds.bind hrun ?_
  refine h₃.shift (by simp [hopening]) fun r₄ h₄ => ?_
  obtain ⟨phrases, last, hphrases, hall, hlast⟩ := hblock hlimit hsound hbody h₄
  refine Succeeds.bind hphrases (Succeeds.of_eq rfl ⟨fun henroll => ?_, hlast⟩)
  rw [htext] at henroll ⊢
  obtain ⟨inside, hinside, hnew, rfl⟩ := Statement.enroll_define.mp henroll
  rw [Phrase.meaning, Action.bind_ok (hall hinside)]
  simp only [hnodup, not_true_eq_false, if_false]
  rw [Action.bind_ok (Registry.define_of_new (by rfl) hnew)]
  rfl

theorem assign_accepts {sign number : Piece} {value : Nat}
    (htarget : target.flat.kind = .identifier) (hsign : sign.flat.kind = .assign)
    (hnumber : number.flat.kind = .number) (hsound : number.Sound)
    (hvalue : number.flat.value = .ok value) (h : r.At (sign :: number :: us) fault) :
    Succeeds (assignment target) r fun phrase r' =>
      phrase.Means (.assign target.flat.text value) ∧ r'.At us fault := by
  have hsign := Piece.terminal_of_kind .assign hsign rfl (by simp)
  have hnumber := Piece.terminal_of_kind .number hnumber rfl (by simp)
  refine h.shift (by simp [hsign]) fun r₁ h₁ => ?_
  refine h₁.shift (by simp [hnumber]) fun r₂ h₂ => ?_
  rw [if_pos hnumber]
  refine Succeeds.of_eq rfl ⟨fun henroll => ?_, h₂⟩
  cases henroll
  rw [Phrase.meaning, hsound.value hnumber, hvalue, (Piece.identifier htarget).2]
  rfl

theorem increment_accepts {sign operand plus one : Piece}
    (htarget : target.flat.kind = .identifier) (hsign : sign.flat.kind = .assign)
    (hoperand : operand.flat.kind = .identifier) (hplus : plus.flat.kind = .plus)
    (hone : one.flat.kind = .number) (hsound : one.Sound) (hvalue : one.flat.value = .ok 1)
    (h : r.At (sign :: operand :: plus :: one :: us) fault) :
    Succeeds (assignment target) r fun phrase r' =>
      phrase.Means (.increment target.flat.text operand.flat.text) ∧ r'.At us fault := by
  have hsign := Piece.terminal_of_kind .assign hsign rfl (by simp)
  obtain ⟨hoperand, htext⟩ := Piece.identifier hoperand
  have hplus := Piece.terminal_of_kind .plus hplus rfl (by simp)
  have hone := Piece.terminal_of_kind .number hone rfl (by simp)
  refine h.shift (by simp [hsign]) fun r₁ h₁ => ?_
  refine h₁.shift (by simp [hoperand]) fun r₂ h₂ => ?_
  rw [if_neg (by simp [hoperand])]
  refine h₂.shift (by simp [hplus]) fun r₃ h₃ => ?_
  rw [if_pos hplus]
  refine h₃.shift (by simp [hone]) fun r₄ h₄ => ?_
  refine Succeeds.of_eq rfl ⟨fun henroll => ?_, h₄⟩
  cases henroll
  rw [Phrase.meaning, hsound.value hone, hvalue, (Piece.identifier htarget).2, htext]
  rfl

theorem call_accepts {sign callee left : Piece} {args : List Atom}
    (htarget : target.flat.kind = .identifier) (hsign : sign.flat.kind = .assign)
    (hcallee : callee.flat.kind = .identifier) (hleft : left.flat.kind = .leftParen)
    (hargs : NameList (ps.map Piece.flat) args)
    (h : r.At (sign :: callee :: left :: (ps ++ us)) fault) :
    Succeeds (assignment target) r fun phrase r' =>
      phrase.Means (.call target.flat.text callee.flat.text args) ∧ r'.At us fault := by
  have hsign := Piece.terminal_of_kind .assign hsign rfl (by simp)
  obtain ⟨hcallee, htext⟩ := Piece.identifier hcallee
  have hleft := Piece.terminal_of_kind .leftParen hleft rfl (by simp)
  refine h.shift (by simp [hsign]) fun r₁ h₁ => ?_
  refine h₁.shift (by simp [hcallee]) fun r₂ h₂ => ?_
  rw [if_neg (by simp [hcallee])]
  refine h₂.shift (by simp [hleft]) fun r₃ h₃ => ?_
  rw [if_neg (by simp [hleft])]
  obtain ⟨found, r₄, hrun, rfl, h₄⟩ := nameList_accepts hargs h₃
  refine Succeeds.bind hrun (Succeeds.of_eq rfl ⟨fun henroll => ?_, h₄⟩)
  rw [(Piece.identifier htarget).2, htext] at henroll ⊢
  exact Phrase.meaning_call_eq_ok_iff.mpr ⟨rfl, henroll⟩

theorem statement_accepts {limit : Nat} {block : Block} (hblock : AcceptsBodies limit block)
    {inner : List Token} {s : Statement} (hs : Sentence (ps.map Piece.flat) inner s)
    (hlimit : ps.length ≤ limit + 1) (hsound : ∀ p ∈ ps, p.Sound) (hus : Stops us fault closers)
    (h : r.At (ps ++ us) fault) :
    Succeeds (statement block) r fun phrase r' => phrase.Means s ∧ r'.At us fault := by
  generalize hts : ps.map Piece.flat = ts at hs
  obtain ⟨t, rest, hcons, hstart⟩ := hs.exists_cons
  obtain ⟨first, qs, rfl, rfl, hqs⟩ := List.map_eq_cons_iff.mp (hts.trans hcons)
  subst hcons
  have hfirst : first.terminal ∈ starts := by
    rw [Piece.flat_kind] at hstart
    cases hterminal : first.terminal <;> simp_all [Terminal.kind, sentenceStarts, starts]
  have hrest : ∀ p ∈ qs, p.Sound := fun p hp => hsound p (by simp [hp])
  refine h.shift hfirst fun r₁ h₁ => ?_
  cases hs with
  | assign htarget hsign hnumber hvalue =>
    obtain ⟨sign, qs₁, rfl, rfl, hqs₁⟩ := List.map_eq_cons_iff.mp hqs
    obtain ⟨number, rfl, rfl⟩ := List.map_eq_singleton_iff.mp hqs₁
    rw [(Piece.identifier htarget).1]
    exact assign_accepts htarget hsign hnumber (hrest number (by simp)) hvalue h₁
  | increment htarget hsign hoperand hplus hone hvalue =>
    obtain ⟨sign, qs₁, rfl, rfl, hqs₁⟩ := List.map_eq_cons_iff.mp hqs
    obtain ⟨operand, qs₂, rfl, rfl, hqs₂⟩ := List.map_eq_cons_iff.mp hqs₁
    obtain ⟨plus, qs₃, rfl, rfl, hqs₃⟩ := List.map_eq_cons_iff.mp hqs₂
    obtain ⟨one, rfl, rfl⟩ := List.map_eq_singleton_iff.mp hqs₃
    rw [(Piece.identifier htarget).1]
    exact increment_accepts htarget hsign hoperand hplus hone (hrest one (by simp)) hvalue h₁
  | call htarget hsign hcallee hleft hargs =>
    obtain ⟨sign, qs₁, rfl, rfl, hqs₁⟩ := List.map_eq_cons_iff.mp hqs
    obtain ⟨callee, qs₂, rfl, rfl, hqs₂⟩ := List.map_eq_cons_iff.mp hqs₁
    obtain ⟨left, qs₃, rfl, rfl, rfl⟩ := List.map_eq_cons_iff.mp hqs₂
    rw [(Piece.identifier htarget).1]
    exact call_accepts htarget hsign hcallee hleft hargs h₁
  | input hword htargets =>
    subst hqs
    rw [Piece.terminal_of_kind .kwInput hword rfl (by simp)]
    exact input_accepts htargets hrest hus h₁
  | output hword hitems hnumbers =>
    subst hqs
    have hprint := output_accepts hitems hnumbers hrest hus h₁
    rw [Piece.flat_kind] at hword
    cases hterminal : first.terminal <;> simp_all [Terminal.kind]
  | loop hword hcount hopening hbody =>
    obtain ⟨count, qs₁, rfl, rfl, hqs₁⟩ := List.map_eq_cons_iff.mp hqs
    obtain ⟨opening, qs₂, rfl, rfl, rfl⟩ := List.map_eq_append_iff.mp hqs₁
    rw [Piece.terminal_of_kind .kwLoop hword rfl (by simp)]
    simp only [List.length_cons, List.length_append] at hlimit
    exact loop_accepts hblock hcount hopening hbody (by omega)
      (fun p hp => hrest p (by simp [hp])) (by simpa using h₁)
  | define hword hname hleft hparams hnodup hopening hbody =>
    obtain ⟨name, qs₁, rfl, rfl, hqs₁⟩ := List.map_eq_cons_iff.mp hqs
    obtain ⟨left, qs₂, rfl, rfl, hqs₂⟩ := List.map_eq_cons_iff.mp hqs₁
    obtain ⟨params, qs₃, rfl, rfl, hqs₃⟩ := List.map_eq_append_iff.mp hqs₂
    obtain ⟨opening, qs₄, rfl, rfl, rfl⟩ := List.map_eq_cons_iff.mp hqs₃
    rw [Piece.terminal_of_kind .kwProgram hword rfl (by simp)]
    simp only [List.length_cons, List.length_append] at hlimit
    exact definition_accepts hblock hname hleft hparams hnodup hopening hbody (by omega)
      (fun p hp => hrest p (by simp [hp])) (by simpa using h₁)

end Statements

/-- A row of tokens that ends with `t` and has `next` in it is cut before `next`. -/
theorem append_singleton_eq {ps : List Piece} {t next : Token} {first us : List Token}
    (h : ps.map Piece.flat ++ [t] = first ++ next :: us) :
    ∃ qs rest, ps = qs ++ rest ∧ qs.map Piece.flat = first ∧
      next :: us = rest.map Piece.flat ++ [t] := by
  rcases List.append_eq_append_iff.mp h with ⟨more, hfirst, hlast⟩ | ⟨more, hps, hlast⟩
  · cases more with
    | nil => exact ⟨ps, [], by simp, by simpa using hfirst.symm, by simpa using hlast.symm⟩
    | cons u more => simp at hlast
  · obtain ⟨qs, rest, rfl, hqs, rfl⟩ := List.map_eq_append_iff.mp hps
    exact ⟨qs, rest, rfl, hqs, hlast⟩

theorem Stops.mono {us : List Piece} {fault : Option Error} {terminals expected : List Terminal}
    (h : Stops us fault terminals) (hsub : ∀ terminal ∈ terminals, terminal ∈ expected) :
    Stops us fault expected := by
  cases us with
  | nil => exact ⟨h.1, hsub _ h.2⟩
  | cons piece us => exact hsub _ h

/-- The token that ends a statement stands for a piece that may follow it. -/
theorem stops_of_ends {rest us : List Piece} {fault : Option Error} {t next : Token}
    {vs : List Token} {close : Terminal} (hclose : close ∈ closers) (hus : Stops us fault [close])
    (hnext : next.Ends) (h : next :: vs = rest.map Piece.flat ++ [t]) :
    Stops (rest ++ us) fault closers := by
  cases rest with
  | nil => exact hus.mono (by simpa using hclose)
  | cons piece rest =>
    obtain ⟨rfl, _⟩ := List.cons.inj h
    show piece.terminal ∈ closers
    unfold Token.Ends at hnext
    rw [Piece.flat_kind, Piece.flat_lineStart] at hnext
    cases hterminal : piece.terminal <;> simp_all [Terminal.kind, closers]

theorem stops_of_sentences {ps us : List Piece} {fault : Option Error} {t : Token}
    {close : Terminal} {inner : List Token} {body : List Statement}
    (h : Sentences close.kind (ps.map Piece.flat ++ [t]) inner body)
    (hclose : close = .finish ∨ close = .kwEnd) (hus : Stops us fault [close]) :
    Stops (ps ++ us) fault (close :: .separator :: starts) := by
  cases ps with
  | nil => exact hus.mono (by simp)
  | cons piece ps =>
    obtain ⟨u, _, hu, hkind⟩ := h.head
    obtain ⟨rfl, _⟩ := List.cons.inj hu
    show piece.terminal ∈ _
    rw [Piece.flat_kind] at hkind
    rcases hclose with rfl | rfl <;> cases hterminal : piece.terminal <;>
      simp_all [Terminal.kind, sentenceStarts, starts]

/-- With that much fuel all rows of sentences are read whose pieces are fewer. -/
def AcceptsRows (fuel : Nat) : Prop :=
  ∀ {close : Terminal} {expected : List Terminal} {r : Feed} {ps us : List Piece}
    {fault : Option Error} {t : Token} {inner : List Token} {body : List Statement},
    close = .finish ∨ close = .kwEnd → t.kind = close.kind →
    Sentences close.kind (ps.map Piece.flat ++ [t]) inner body → (∀ p ∈ ps, p.Sound) →
    ps.length < fuel → r.At (ps ++ us) fault → Stops us fault [close] →
    Stops (ps ++ us) fault expected →
    Succeeds (phrases fuel close expected) r fun found r' => MeanAll found body ∧ r'.At us fault

theorem AcceptsRows.block {fuel : Nat} (h : AcceptsRows fuel) :
    AcceptsBodies fuel fun first => do
      let body ← phrases fuel .kwEnd first
      let _ ← shift [.kwEnd]
      return body := by
  intro r ps us fault inner body hlimit hsound hbody hr
  obtain ⟨ts, t, hts, ht⟩ := hbody.exists_close
  obtain ⟨rest, last, rfl, rfl, hlast⟩ := List.map_eq_append_iff.mp hts
  obtain ⟨last, rfl, rfl⟩ := List.map_eq_singleton_iff.mp hlast
  have hend : last.terminal = .kwEnd := Piece.terminal_of_kind .kwEnd ht rfl (by simp)
  have hus : Stops (last :: us) fault [.kwEnd] := by simp [Stops, hend]
  rw [List.map_append] at hbody
  rw [List.append_assoc] at hr
  simp only [List.length_append, List.length_singleton] at hlimit
  have hstops : Stops (rest ++ last :: us) fault bodyStarts := by
    refine (@stops_of_sentences _ _ _ _ .kwEnd _ _ hbody (.inr rfl) hus).mono ?_
    simp only [bodyStarts, List.mem_cons]
    grind
  obtain ⟨found, r', hrun, hfound, hlast⟩ :=
    h (.inr rfl) ht hbody (fun p hp => hsound p (by simp [hp])) (by omega) hr hus hstops
  refine Succeeds.bind hrun ?_
  refine hlast.shift (by simp [hend]) fun r'' h'' => ?_
  exact Succeeds.of_eq rfl ⟨hfound, h''⟩

theorem phrases_accepts (fuel : Nat) : AcceptsRows fuel := by
  induction fuel with
  | zero => exact fun _ _ _ _ hfuel => absurd hfuel (Nat.not_lt_zero _)
  | succ fuel ih =>
    intro close expected r ps us fault t inner body hclose ht h hsound hfuel hr hus hexpected
    generalize hts : ps.map Piece.flat ++ [t] = ts at h
    cases h with
    | close _ =>
      have hnil : ps = [] := by
        cases ps with
        | nil => rfl
        | cons piece ps => simp at hts
      subst hnil
      obtain ⟨piece, hlook, _⟩ := hexpected.look (fun _ hmem => hmem) hr
      obtain ⟨same, hsame, hkind⟩ := hus.look (fun _ hmem => hmem) hr
      have hfront : piece = same :=
        Except.ok.inj ((look_eq_ok hlook).1.symm.trans (look_eq_ok hsame).1)
      subst hfront
      rw [List.mem_singleton] at hkind
      refine Succeeds.bind hlook ?_
      have hends : (piece.terminal = .finish || piece.terminal = .kwEnd) = true := by
        rcases hclose with rfl | rfl <;> simp [hkind]
      rw [if_neg (by rcases hclose with rfl | rfl <;> simp [hkind]), if_pos hends, if_pos hkind]
      refine Succeeds.of_eq rfl ⟨fun henroll => ?_, hr⟩
      cases henroll
      rfl
    | semicolon hsemi hrest =>
      cases ps with
      | nil =>
        obtain ⟨rfl, rfl⟩ := List.cons.inj hts
        rcases hclose with rfl | rfl <;> simp [hsemi, Terminal.kind] at ht
      | cons piece ps =>
        obtain ⟨rfl, rfl⟩ := List.cons.inj hts
        have hterminal := Piece.terminal_of_kind .separator hsemi rfl (by simp)
        refine Succeeds.bind (hr.look hexpected) ?_
        rw [if_pos hterminal]
        refine hr.shift (by simp [hterminal]) fun r' h' => ?_
        have hstops := stops_of_sentences hrest hclose hus
        refine ih hclose ht hrest (fun p hp => hsound p (by simp [hp]))
          (Nat.lt_of_succ_lt_succ hfuel) h' hus (hstops.mono fun terminal hmem => ?_)
        simp only [closers, List.mem_append, List.mem_cons] at hmem ⊢
        grind
    | cons hfirst hends hmore =>
      obtain ⟨qs, rest, rfl, rfl, hnext⟩ := append_singleton_eq hts
      obtain ⟨u, _, hu, hstart⟩ := hfirst.exists_cons
      obtain ⟨word, qs, rfl, rfl, _⟩ := List.map_eq_cons_iff.mp hu
      have hword : word.terminal ≠ .separator ∧
          (word.terminal = .finish || word.terminal = .kwEnd) = false := by
        rw [Piece.flat_kind] at hstart
        cases hterminal : word.terminal <;> simp_all [Terminal.kind, sentenceStarts]
      have hcloser : close ∈ closers := by rcases hclose with rfl | rfl <;> simp [closers]
      have hstops : Stops (rest ++ us) fault closers := stops_of_ends hcloser hus hends hnext
      rw [List.append_assoc] at hr
      simp only [List.length_cons, List.length_append] at hfuel
      have hlimit : (word :: qs).length ≤ fuel + 1 := by
        simp only [List.length_cons]
        omega
      obtain ⟨phrase, r₁, hrun, hmeans, h₁⟩ :=
        statement_accepts ih.block hfirst hlimit
          (fun p hp => hsound p (List.mem_append_left _ hp)) hstops hr
      rw [hnext] at hmore
      obtain ⟨found, r₂, hrun', hall, h₂⟩ :=
        ih hclose ht hmore (fun p hp => hsound p (by simp [hp])) (by omega) h₁ hus hstops
      refine Succeeds.bind (hr.look hexpected) ?_
      rw [if_neg hword.1, if_neg (by simp [hword.2])]
      refine Succeeds.bind hrun (Succeeds.bind hrun' (Succeeds.of_eq rfl ⟨?_, h₂⟩))
      intro registry after henroll
      obtain ⟨middle, henrollFirst, henrollMore⟩ := Statement.enrollAll_cons.mp henroll
      rw [Phrase.meanings, Action.bind_ok (hmeans henrollFirst), Action.bind_ok (hall henrollMore)]
      rfl

/-- A source whose pieces are sentences is parsed by the grammar where they can be enrolled. -/
theorem parseByGrammar_of_sentences {source : String} {registry after : Registry}
    {body : List Statement} {t : Token} {inner : List Token} (ht : t.kind = .eof)
    (h : Sentences .eof ((Feed.ofSource source).pieces.map Piece.flat ++ [t]) inner body)
    (hfault : (Feed.ofSource source).fault = none)
    (hsound : ∀ p ∈ (Feed.ofSource source).pieces, p.Sound)
    (henroll : Statement.enrollAll body registry = some after) :
    parseByGrammar source registry = (.ok body, after) := by
  have hus : Stops [] (none : Option Error) [.finish] := ⟨rfl, by simp⟩
  have hr : (Feed.ofSource source).At ((Feed.ofSource source).pieces ++ []) none :=
    ⟨(List.append_nil _).symm, hfault⟩
  have hstops := @stops_of_sentences _ [] none t .finish inner body h (.inl rfl) hus
  obtain ⟨found, last, hrun, hall, _⟩ :=
    @phrases_accepts _ .finish _ _ _ [] none t inner body (.inl rfl) ht h hsound
      (Nat.lt_succ_self _) hr hus hstops
  unfold parseByGrammar
  rw [program, hrun]
  exact hall henroll

end LoopLanguage.Grammar
