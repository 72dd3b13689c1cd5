import LoopLanguage.Proofs.Descent

/-!
Every row of sentences whose calls and definitions fit is read by descent. The proofs walk along a
reader with the tokens in hand: before each step it is known which tokens are left, and the step
takes those that it needs.
-/

namespace LoopLanguage

open LoopLanguage.Action (Succeeds)

theorem Lexer.upTo_length (count : Nat) (lexer : Lexer) : (upTo count lexer).1.length ≤ count := by
  induction count generalizing lexer with
  | zero => exact Nat.le_refl 0
  | succ count ih =>
    rw [upTo]
    split
    · next t after _ =>
      split
      · simp
      · exact Nat.succ_le_succ (ih after)
    · simp

namespace Parser

/-- The size of a parser bounds its pending tokens. -/
theorem pending_length_le (p : Parser) : p.pending.length ≤ p.size := by
  have htokens := Lexer.upTo_length (p.lexer.rest.length + 2) p.lexer
  rw [pending, List.length_append, size]
  simp only [Lexer.tokens]
  omega

/-- Reading `ts` leads from `p` to `q`, where the tokens `left` are pending. -/
structure Reached (p : Parser) (ts : List Token) (registry : Registry) (left : List Token)
    (q : Parser) : Prop extends Advance p ts registry q where
  left : q.pending = left

theorem Reached.start {p : Parser} {left : List Token} (hp : p.Steady) (h : p.pending = left) :
    Reached p [] p.registry left p :=
  { Advance.refl hp with left := h }

theorem Advance.reached {p q : Parser} {ts us left : List Token} {registry : Registry}
    {r : Parser} (hstep : Advance q us q.registry r) (h : Reached p ts registry (us ++ left) q) :
    Reached p (ts ++ us) registry left r := by
  have hadvance := h.toAdvance.trans hstep
  rw [h.registry] at hadvance
  have hleft : us ++ r.pending = us ++ left := hstep.pending.symm.trans h.left
  exact { hadvance with left := List.append_cancel_left hleft }

namespace Reached

variable {p q r : Parser} {ts us vs : List Token} {registry : Registry} {context : String}
  {α : Type} {Q : α → Parser → Prop} {t : Token}

theorem nextToken (h : Reached p ts registry (t :: us) r) (ht : t.kind ≠ .eof) :
    ∃ r', Parser.nextToken r = (.ok t, r') ∧ Reached p (ts ++ [t]) registry us r' := by
  obtain ⟨r', hnext⟩ := nextToken_of_pending h.left
  exact ⟨r', hnext, (nextToken_ok h.steady hnext ht).reached h⟩

/-- A token that was only looked at is left. -/
theorem pushBack (h : Reached p ts registry (t :: us) r) (hp : p.ahead.length ≤ ts.length) :
    ∃ r' back, Parser.nextToken r = (.ok t, r') ∧ Parser.pushBack t r' = (.ok (), back) ∧
      Reached p ts registry (t :: us) back := by
  obtain ⟨r', hnext⟩ := nextToken_of_pending h.left
  obtain ⟨back, hback, hstay, _⟩ := pushBack_of_nextToken (h.ahead_nil hp) hnext
  have hreached := hstay.reached h
  rw [List.append_nil] at hreached
  exact ⟨r', back, hnext, hback, hreached⟩

theorem note (h : Reached p ts registry us r) {draft : Draft} {f : Unit → Action Parser α}
    (hrest : ∀ r', Reached p ts registry us r' → Succeeds (f ()) r' Q) :
    Succeeds (Parser.note draft >>= f) r Q :=
  Succeeds.bind rfl (hrest { r with draft } { h with })

theorem expectOneOf (h : Reached p ts registry (t :: us) r) {kinds : List Kind}
    (ht : t.kind ∈ kinds) (hkinds : .eof ∉ kinds) {f : Token → Action Parser α}
    (hrest : ∀ r', Reached p (ts ++ [t]) registry us r' → Succeeds (f t) r' Q) :
    Succeeds (Parser.expectOneOf kinds context >>= f) r Q := by
  have hne : t.kind ≠ .eof := fun heof => hkinds (heof ▸ ht)
  obtain ⟨r', hnext, hreached⟩ := h.nextToken hne
  have hexpect : Parser.expectOneOf kinds context r = (.ok t, r') := by
    rw [Parser.expectOneOf, Action.bind_ok hnext, if_pos (List.contains_iff_mem.mpr ht)]
    rfl
  exact Succeeds.bind hexpect (hrest r' hreached)

theorem expect (h : Reached p ts registry (t :: us) r) {kind : Kind} (ht : t.kind = kind)
    (hkind : kind ≠ .eof) {f : Token → Action Parser α}
    (hrest : ∀ r', Reached p (ts ++ [t]) registry us r' → Succeeds (f t) r' Q) :
    Succeeds (Parser.expect kind context >>= f) r Q :=
  h.expectOneOf (by simp [ht]) (by simpa using hkind.symm) hrest

theorem namesFrom {name : Token} {names : List Atom} (hnames : Names (name :: us) names)
    {count : Nat} (hcount : us.length ≤ count) (h : Reached p ts registry (us ++ vs) r) :
    Succeeds (Parser.namesFrom context count name) r fun found q =>
      found = names ∧ Reached p (ts ++ us) registry vs q := by
  induction count generalizing name us ts r names with
  | zero => cases hnames <;> simp at hcount
  | succ count ih =>
    rw [Parser.namesFrom]
    cases hnames with
    | last _ hclose =>
      obtain ⟨r', hnext, hreached⟩ := h.nextToken (by simp [hclose])
      refine Succeeds.bind hnext ?_
      rw [if_neg (by simp [hclose]), if_pos hclose]
      exact Succeeds.of_eq rfl ⟨rfl, hreached⟩
    | @more _ comma rest more _ hcomma hrest =>
      obtain ⟨r', hnext, hreached⟩ := h.nextToken (by simp [hcomma])
      refine Succeeds.bind hnext ?_
      rw [if_pos hcomma]
      obtain ⟨second, rest', rfl, hsecond⟩ := hrest.head
      refine hreached.expect hsecond (by simp) fun r'' hsecondReached => ?_
      simp only [List.length_cons] at hcount
      obtain ⟨_, q, hrun, rfl, hlast⟩ := ih hrest (by omega) hsecondReached
      exact Succeeds.bind hrun (Succeeds.of_eq rfl ⟨rfl, by simpa using hlast⟩)

theorem nameList {names : List Atom} (hnames : NameList us names)
    (h : Reached p ts registry (us ++ vs) r) {f : List Atom → Action Parser α}
    (hrest : ∀ r', Reached p (ts ++ us) registry vs r' → Succeeds (f names) r' Q) :
    Succeeds (Parser.nameList context >>= f) r Q := by
  suffices hlist : Succeeds (Parser.nameList context) r fun found q =>
      found = names ∧ Reached p (ts ++ us) registry vs q by
    obtain ⟨_, q, hrun, rfl, hreached⟩ := hlist
    exact Succeeds.bind hrun (hrest q hreached)
  rw [Parser.nameList]
  cases hnames with
  | none hclose =>
    refine h.expectOneOf (by simp [hclose]) (by simp) fun r' hreached => ?_
    rw [if_pos hclose]
    exact Succeeds.of_eq rfl ⟨rfl, hreached⟩
  | some hsome =>
    obtain ⟨first, rest, rfl, hfirst⟩ := hsome.head
    rw [List.cons_append] at h
    refine h.expectOneOf (by simp [hfirst]) (by simp) fun r' hreached => ?_
    rw [if_neg (by simp [hfirst])]
    have hsize := r'.pending_length_le
    rw [hreached.left, List.length_append] at hsize
    obtain ⟨_, q, hrun, rfl, hlast⟩ :=
      @namesFrom p r' (ts ++ [first]) rest vs registry context first names hsome r'.size (by omega)
        hreached
    exact Succeeds.bind rfl (Succeeds.of_eq hrun ⟨rfl, by simpa using hlast⟩)

theorem itemsFrom {kinds : List Kind} (hkinds : .eof ∉ kinds) {items : List Token}
    (hitems : Items kinds us items) {next : Token} (hnext : ItemsEnd kinds next) {count : Nat}
    (hcount : us.length < count) (h : Reached p ts registry (us ++ next :: vs) r)
    (hp : p.ahead.length ≤ ts.length) :
    Succeeds (Parser.itemsFrom kinds count) r fun found q =>
      found = items ∧ Reached p (ts ++ us) registry (next :: vs) q := by
  induction count generalizing us ts r items with
  | zero => exact absurd hcount (Nat.not_lt_zero _)
  | succ count ih =>
    rw [Parser.itemsFrom]
    cases hitems with
    | done =>
      obtain ⟨r', back, hread, hback, hreached⟩ := h.pushBack hp
      refine Succeeds.bind hread ?_
      rw [if_pos (by by_cases hcomma : next.kind = .comma <;> simp [hcomma, hnext.1])]
      exact Succeeds.bind hback (Succeeds.of_eq rfl ⟨rfl, by simpa using hreached⟩)
    | @trailing comma hcomma hline =>
      obtain ⟨r', hread, hreached⟩ := h.nextToken (by simp [hcomma])
      refine Succeeds.bind hread ?_
      rw [if_neg (by simp [hcomma, hline])]
      obtain ⟨r'', back, hitem, hback, hlast⟩ := hreached.pushBack (by simp; omega)
      refine Succeeds.bind hitem ?_
      rw [if_pos (by by_cases hmem : next.kind ∈ kinds <;> simp [hmem, hnext.2])]
      exact Succeeds.bind hback (Succeeds.of_eq rfl ⟨rfl, hlast⟩)
    | @more comma item rest items hcomma hline hitem hitemLine hrest =>
      obtain ⟨r', hread, hreached⟩ := h.nextToken (by simp [hcomma])
      refine Succeeds.bind hread ?_
      rw [if_neg (by simp [hcomma, hline])]
      have hne : item.kind ≠ .eof := fun heof => hkinds (heof ▸ hitem)
      obtain ⟨r'', hread', hreached'⟩ := hreached.nextToken hne
      refine Succeeds.bind hread' ?_
      rw [if_neg (by simp [hitem, hitemLine])]
      simp only [List.length_cons] at hcount
      obtain ⟨_, q, hrun, rfl, hlast⟩ := ih hrest (by omega) hreached' (by simp; omega)
      exact Succeeds.bind hrun (Succeeds.of_eq rfl ⟨rfl, by simpa using hlast⟩)

theorem itemList {kinds : List Kind} (hkinds : .eof ∉ kinds) {items : List Token}
    (hitems : ItemList kinds us items) {next : Token} (hnext : ItemsEnd kinds next)
    (h : Reached p ts registry (us ++ next :: vs) r) (hp : p.ahead.length ≤ ts.length)
    {f : List Token → Action Parser α}
    (hrest : ∀ r', Reached p (ts ++ us) registry (next :: vs) r' → Succeeds (f items) r' Q) :
    Succeeds (Parser.itemList kinds context >>= f) r Q := by
  suffices hlist : Succeeds (Parser.itemList kinds context) r fun found q =>
      found = items ∧ Reached p (ts ++ us) registry (next :: vs) q by
    obtain ⟨_, q, hrun, rfl, hreached⟩ := hlist
    exact Succeeds.bind hrun (hrest q hreached)
  rw [Parser.itemList]
  cases hitems with
  | @mk first rest items hfirst hmore =>
    rw [List.cons_append] at h
    refine h.expectOneOf hfirst hkinds fun r' hreached => ?_
    have hsize := r'.pending_length_le
    rw [hreached.left, List.length_append, List.length_cons] at hsize
    have hcount : rest.length < r'.size := by omega
    obtain ⟨_, q, hrun, rfl, hlast⟩ :=
      hreached.itemsFrom hkinds hmore hnext hcount (by simp; omega)
    refine Succeeds.bind rfl (Succeeds.bind hrun (Succeeds.of_eq rfl ⟨rfl, ?_⟩))
    simpa using hlast

end Reached

/-- What is left where a statement ended: a semicolon behind it is used up, any other token is
left. -/
def Ended (p : Parser) (registry : Registry) (next : Token) (us : List Token) (q : Parser) : Prop :=
  q.ahead = [] ∧ ∃ ts, Advance p ts registry q ∧
    ((next.kind = .semicolon ∧ q.pending = us) ∨ q.pending = next :: us)

theorem Reached.endStatement {p r : Parser} {ts us : List Token} {registry : Registry}
    {context : String} {next : Token} (hnext : next.Ends) (h : Reached p ts registry (next :: us) r)
    (hp : p.ahead.length ≤ ts.length) {s : Statement} :
    Succeeds (Parser.endStatement context >>= fun _ => pure s) r fun found q =>
      found = s ∧ Ended p registry next us q := by
  by_cases hsemi : next.kind = .semicolon
  · obtain ⟨r', hread, hreached⟩ := h.nextToken (by simp [hsemi])
    have hend : Parser.endStatement context r = (.ok (), r') := by
      rw [Parser.endStatement, Action.bind_ok hread, if_pos hsemi]
      rfl
    have hahead : r'.ahead = [] := hreached.ahead_nil (by simp; omega)
    exact Succeeds.bind hend (Succeeds.of_eq rfl
      ⟨rfl, hahead, _, hreached.toAdvance, .inl ⟨hsemi, hreached.left⟩⟩)
  · obtain ⟨r', back, hread, hback, hreached⟩ := h.pushBack hp
    have hends : (next.lineStart || decide (next.kind = .kwEnd) || decide (next.kind = .eof)) := by
      rcases hnext with hkind | hkind | hkind | hkind <;> simp_all
    have hend : Parser.endStatement context r = (.ok (), back) := by
      rw [Parser.endStatement, Action.bind_ok hread, if_neg hsemi, if_pos hends, hback]
    exact Succeeds.bind hend (Succeeds.of_eq rfl
      ⟨rfl, hreached.ahead_nil hp, _, hreached.toAdvance, .inr hreached.left⟩)

/-- The reader reads the statement in front of `next :: us` and leaves that registry. -/
def Accepts (read : Action Parser Statement) (p : Parser) (s : Statement) (registry : Registry)
    (next : Token) (us : List Token) : Prop :=
  Succeeds read p fun found q => found = s ∧ Ended p registry next us q

section Readers

variable {p : Parser} {next : Token} {us : List Token} (hnext : next.Ends) (hp : p.Steady)
include hnext hp

theorem readAssign_accepts {target sign number : Token} {value : Nat}
    (htarget : target.kind = .identifier) (hsign : sign.kind = .assign)
    (hnumber : number.kind = .number) (hvalue : number.value = .ok value)
    (hahead : p.ahead.length ≤ 3) (hpending : p.pending = target :: sign :: number :: next :: us) :
    Accepts readAssign p (.assign target.text value) p.registry next us := by
  refine (Reached.start hp hpending).expect htarget (by simp) fun r₁ h₁ => ?_
  refine h₁.note fun r₂ h₂ => ?_
  refine h₂.expect hsign (by simp) fun r₃ h₃ => ?_
  refine h₃.expect hnumber (by simp) fun r₄ h₄ => ?_
  refine Succeeds.bind (by rw [hvalue]; rfl) ?_
  refine h₄.note fun r₅ h₅ => ?_
  exact h₅.endStatement hnext hahead

theorem readIncrement_accepts {target sign operand plus one : Token}
    (htarget : target.kind = .identifier) (hsign : sign.kind = .assign)
    (hoperand : operand.kind = .identifier) (hplus : plus.kind = .plus) (hone : one.kind = .number)
    (hvalue : one.value = .ok 1) (hahead : p.ahead.length ≤ 4)
    (hpending : p.pending = target :: sign :: operand :: plus :: one :: next :: us) :
    Accepts readIncrement p (.increment target.text operand.text) p.registry next us := by
  refine (Reached.start hp hpending).expect htarget (by simp) fun r₁ h₁ => ?_
  refine h₁.note fun r₂ h₂ => ?_
  refine h₂.expect hsign (by simp) fun r₃ h₃ => ?_
  refine h₃.expect hoperand (by simp) fun r₄ h₄ => ?_
  refine h₄.note fun r₅ h₅ => ?_
  refine h₅.expect hplus (by simp) fun r₆ h₆ => ?_
  refine h₆.expect hone (by simp) fun r₇ h₇ => ?_
  refine Succeeds.bind (by rw [hvalue]; rfl) ?_
  exact h₇.endStatement hnext (Nat.le_succ_of_le hahead)

theorem readCall_accepts {target sign callee left : Token} {ts : List Token} {args : List Atom}
    {d : Definition} (htarget : target.kind = .identifier) (hsign : sign.kind = .assign)
    (hcallee : callee.kind = .identifier) (hkey : callee.text.isKey = true)
    (hleft : left.kind = .leftParen) (hargs : NameList ts args) (hfind : p.registry.find? callee.text = some d)
    (hlength : args.length = d.params.length) (hahead : p.ahead.length ≤ 4)
    (hpending : p.pending = target :: sign :: callee :: left :: (ts ++ next :: us)) :
    Accepts readCall p (.call target.text callee.text args) p.registry next us := by
  refine (Reached.start hp hpending).expect htarget (by simp) fun r₁ h₁ => ?_
  refine h₁.note fun r₂ h₂ => ?_
  refine h₂.expect hsign (by simp) fun r₃ h₃ => ?_
  refine h₃.expect hcallee (by simp) fun r₄ h₄ => ?_
  refine Succeeds.bind rfl ?_
  rw [h₄.registry]
  refine Succeeds.bind (by rw [Registry.contains_of_key hkey, hfind]; rfl) ?_
  refine h₄.note fun r₅ h₅ => ?_
  refine h₅.expect hleft (by simp) fun r₆ h₆ => ?_
  refine h₆.nameList hargs fun r₇ h₇ => ?_
  refine Succeeds.bind rfl ?_
  rw [h₇.registry]
  refine Succeeds.bind (by rw [Registry.lookup_of_find? hkey hfind]; rfl) ?_
  rw [if_neg (by simp [hlength])]
  refine h₇.note fun r₈ h₈ => ?_
  exact h₈.endStatement hnext (by simp; omega)

theorem readInput_accepts {word : Token} {ts targets : List Token} (hword : word.kind = .kwInput)
    (htargets : ItemList targetKinds ts targets) (hahead : p.ahead = [])
    (hpending : p.pending = word :: (ts ++ next :: us)) :
    Accepts readInput p (.input targets) p.registry next us := by
  refine (Reached.start hp hpending).expect hword (by simp) fun r₁ h₁ => ?_
  have hend : ItemsEnd targetKinds next := hnext.itemsEnd (by simp [targetKinds, itemKinds])
  refine h₁.itemList (by simp [targetKinds]) htargets hend (by simp [hahead]) fun r₂ h₂ => ?_
  refine h₂.note fun r₃ h₃ => ?_
  exact h₃.endStatement hnext (by simp [hahead])

theorem readOutput_accepts {word : Token} {ts items : List Token} (hword : word.kind = .kwPrint)
    (hitems : ItemList itemKinds ts items) (hnumbers : checkNumbers items = .ok ())
    (hahead : p.ahead = []) (hpending : p.pending = word :: (ts ++ next :: us)) :
    Accepts readOutput p (.output items) p.registry next us := by
  refine (Reached.start hp hpending).expect hword (by simp) fun r₁ h₁ => ?_
  have hend : ItemsEnd itemKinds next := hnext.itemsEnd fun _ h => h
  refine h₁.itemList (by simp [itemKinds]) hitems hend (by simp [hahead]) fun r₂ h₂ => ?_
  refine Succeeds.bind (by rw [hnumbers]; rfl) ?_
  refine h₂.note fun r₃ h₃ => ?_
  exact h₃.endStatement hnext (by simp [hahead])

end Readers

/-- The identifiers among the tokens can name programs. -/
def Keyed (ts : List Token) : Prop := ∀ t ∈ ts, t.kind = .identifier → t.text.isKey = true

/-- The reader reads every body of at most `limit` tokens whose calls and definitions fit. -/
def AcceptsBodies (limit : Nat) (block : Action Parser (List Statement)) : Prop :=
  ∀ {p : Parser} {ts inner us : List Token} {body : List Statement} {registry : Registry},
    ts.length ≤ limit → Sentences .kwEnd ts inner body → Keyed ts → p.ahead = [] →
    p.pending = ts ++ us → Statement.enrollAll body p.registry = some registry →
    Succeeds block p fun found q => found = body ∧ Reached p ts registry us q

theorem Reached.block {limit : Nat} {block : Action Parser (List Statement)}
    (hblock : AcceptsBodies limit block) {p r : Parser} {ts us vs inner : List Token}
    {body : List Statement} {registry after : Registry} {α : Type} {Q : α → Parser → Prop}
    {f : List Statement → Action Parser α} (h : Reached p ts registry (us ++ vs) r)
    (hp : p.ahead.length ≤ ts.length) (hlimit : us.length ≤ limit)
    (hbody : Sentences .kwEnd us inner body) (hkeyed : Keyed us)
    (henroll : Statement.enrollAll body registry = some after)
    (hrest : ∀ r', Reached p (ts ++ us) after vs r' → Succeeds (f body) r' Q) :
    Succeeds (block >>= f) r Q := by
  rw [← h.registry] at henroll
  obtain ⟨_, r', hrun, rfl, hreached⟩ :=
    hblock hlimit hbody hkeyed (h.ahead_nil hp) h.left henroll
  exact Succeeds.bind hrun (hrest r' { h.trans hreached.toAdvance with left := hreached.left })

theorem Reached.skipDo {p r : Parser} {ts us opening inner : List Token} {body : List Statement}
    {registry : Registry} {vs : List Token} {α : Type} {Q : α → Parser → Prop}
    {f : Unit → Action Parser α} (h : Reached p ts registry (opening ++ (us ++ vs)) r)
    (hp : p.ahead.length ≤ ts.length) (hopening : MaybeDo opening)
    (hbody : Sentences .kwEnd us inner body)
    (hrest : ∀ r', Reached p (ts ++ opening) registry (us ++ vs) r' → Succeeds (f ()) r' Q) :
    Succeeds (Parser.skipDo >>= f) r Q := by
  cases hopening with
  | present hdo =>
    obtain ⟨r', hnext, hreached⟩ := h.nextToken (by simp [hdo])
    have hskip : Parser.skipDo r = (.ok (), r') := by
      rw [Parser.skipDo, Action.bind_ok hnext, if_pos hdo]
      rfl
    exact Succeeds.bind hskip (hrest r' hreached)
  | absent =>
    obtain ⟨t, rest, rfl, hhead⟩ := hbody.head
    have ht : t.kind ≠ .kwDo := by
      rintro hdo
      simp [hdo, sentenceStarts] at hhead
    obtain ⟨r', back, hnext, hback, hreached⟩ := h.pushBack hp
    have hskip : Parser.skipDo r = (.ok (), back) := by
      rw [Parser.skipDo, Action.bind_ok hnext, if_neg ht, hback]
    exact Succeeds.bind hskip (hrest back (by simpa using hreached))

theorem readLoop_accepts {limit : Nat} {block : Action Parser (List Statement)}
    (hblock : AcceptsBodies limit block) {p : Parser} {next word count : Token}
    {opening ts inner us : List Token} {body : List Statement} {registry : Registry}
    (hnext : next.Ends) (hword : word.kind = .kwLoop) (hcount : count.kind = .identifier)
    (hopening : MaybeDo opening) (hbody : Sentences .kwEnd ts inner body) (hkeyed : Keyed ts)
    (hlimit : ts.length ≤ limit) (hahead : p.ahead = [])
    (henroll : Statement.enrollAll body p.registry = some registry)
    (hpending : p.pending = word :: count :: (opening ++ (ts ++ next :: us))) :
    Accepts (readLoop block) p (.loop count.text body) registry next us := by
  have hstart := Reached.start (steady_of_ahead_nil hahead) hpending
  refine hstart.expect hword (by simp) fun r₁ h₁ => ?_
  refine h₁.expect hcount (by simp) fun r₂ h₂ => ?_
  refine h₂.note fun r₃ h₃ => ?_
  refine h₃.skipDo (by simp [hahead]) hopening hbody fun r₄ h₄ => ?_
  refine h₄.block hblock (by simp [hahead]) hlimit hbody hkeyed henroll fun r₅ h₅ => ?_
  refine h₅.note fun r₆ h₆ => ?_
  exact h₆.endStatement hnext (by simp [hahead])

theorem readDefine_accepts {limit : Nat} {block : Action Parser (List Statement)}
    (hblock : AcceptsBodies limit block) {p : Parser} {next word name left opening : Token}
    {ts vs inner us : List Token} {params : List Atom} {body : List Statement}
    {registry : Registry} (hnext : next.Ends) (hword : word.kind = .kwProgram)
    (hname : name.kind = .identifier) (hkey : name.text.isKey = true)
    (hleft : left.kind = .leftParen) (hparams : NameList ts params) (hnodup : params.Nodup)
    (hopening : opening.kind = .kwDo) (hbody : Sentences .kwEnd vs inner body)
    (hkeyed : Keyed vs) (hlimit : vs.length ≤ limit) (hahead : p.ahead = [])
    (henroll : Statement.enrollAll body p.registry = some registry)
    (hnew : registry.find? name.text = none)
    (hpending :
      p.pending = word :: name :: left :: (ts ++ opening :: (vs ++ next :: us))) :
    Accepts (readDefine block) p (.define name.text params body)
      (registry ++ [⟨name.text, params, body⟩]) next us := by
  have hstart := Reached.start (steady_of_ahead_nil hahead) hpending
  refine hstart.expect hword (by simp) fun r₁ h₁ => ?_
  refine h₁.expect hname (by simp) fun r₂ h₂ => ?_
  refine Succeeds.bind rfl ?_
  -- The name is new before the body is read because it is new afterwards.
  have hearly : p.registry.find? name.text = none := by
    obtain ⟨more, rfl⟩ := Statement.enrollAll_extends body henroll
    cases hfind : p.registry.find? name.text with
    | none => rfl
    | some d => rw [Registry.find?_append_of_some hfind] at hnew; cases hnew
  rw [h₂.registry]
  refine Succeeds.bind (by rw [Registry.contains_of_key hkey, hearly]; rfl) ?_
  refine h₂.note fun r₃ h₃ => ?_
  refine h₃.expect hleft (by simp) fun r₄ h₄ => ?_
  refine h₄.nameList hparams fun r₅ h₅ => ?_
  rw [if_neg (by simpa using hnodup)]
  refine h₅.note fun r₆ h₆ => ?_
  refine h₆.expect hopening (by simp) fun r₇ h₇ => ?_
  refine h₇.block hblock (by simp [hahead]) hlimit hbody hkeyed henroll fun r₈ h₈ => ?_
  refine h₈.note fun r₉ h₉ => ?_
  have hdefine : onRegistry (Registry.define ⟨name.text, params, body⟩) r₉ =
      (.ok (), { r₉ with registry := registry ++ [⟨name.text, params, body⟩] }) := by
    unfold onRegistry Action.onPart
    rw [h₉.registry, Registry.define_of_new hkey hnew]
  have hlast : Reached p _ (registry ++ [⟨name.text, params, body⟩]) (next :: us)
      { r₉ with registry := registry ++ [⟨name.text, params, body⟩] } :=
    { h₉ with registry := rfl }
  exact Succeeds.bind hdefine (hlast.endStatement hnext (by simp [hahead]))

theorem takeTokens_of_pending {front us : List Token} {p : Parser} (hp : p.Steady)
    (hfront : ∀ t ∈ front, t.kind ≠ .eof) (hpending : p.pending = front ++ us) :
    ∃ q, takeTokens front.length p = (.ok front, q) := by
  induction front generalizing p with
  | nil => exact ⟨p, rfl⟩
  | cons t front ih =>
    obtain ⟨r, hnext, hreached⟩ := (Reached.start hp hpending).nextToken (hfront t (by simp))
    obtain ⟨q, htake⟩ := ih hreached.steady (fun u hu => hfront u (by simp [hu])) hreached.left
    refine ⟨q, ?_⟩
    rw [List.length_cons, takeTokens, Action.bind_ok hnext, Action.bind_ok htake]
    rfl

theorem peek_of_pending {front us : List Token} {count : Nat} {p : Parser} (hp : p.Steady)
    (hfront : ∀ t ∈ front, t.kind ≠ .eof) (hcount : front.length = count)
    (hpending : p.pending = front ++ us) : ∃ q, peek count p = (.ok front, q) := by
  obtain ⟨q, htake⟩ := takeTokens_of_pending hp hfront hpending
  rw [hcount] at htake
  exact ⟨{ q with ahead := front ++ q.ahead }, by rw [peek, Action.bind_ok htake]; rfl⟩

theorem assignmentForm_number {p : Parser} {target sign number : Token} {us : List Token}
    (hp : p.ahead = []) (htarget : target.kind = .identifier) (hsign : sign.kind = .assign)
    (hnumber : number.kind = .number) (hpending : p.pending = target :: sign :: number :: us) :
    ∃ q, assignmentForm p = (.ok .assign, q) := by
  obtain ⟨q, hpeek⟩ := @peek_of_pending [target, sign, number] us 3 p (steady_of_ahead_nil hp)
    (by simp [htarget, hsign, hnumber]) rfl hpending
  refine ⟨q, ?_⟩
  rw [assignmentForm, Action.bind_ok hpeek]
  simp [hsign, hnumber]

theorem assignmentForm_name {p : Parser} {target sign name follow : Token} {us : List Token}
    {form : Statement.Form} (hp : p.ahead = []) (htarget : target.kind = .identifier)
    (hsign : sign.kind = .assign) (hname : name.kind = .identifier)
    (hfollow : (follow.kind = .plus ∧ form = .increment) ∨
      (follow.kind = .leftParen ∧ form = .call))
    (hpending : p.pending = target :: sign :: name :: follow :: us) :
    ∃ q, assignmentForm p = (.ok form, q) := by
  have hsteady := steady_of_ahead_nil hp
  have hfront : ∀ t ∈ [target, sign, name], t.kind ≠ .eof := by simp [htarget, hsign, hname]
  obtain ⟨r, hpeek⟩ :=
    @peek_of_pending [target, sign, name] (follow :: us) 3 p hsteady hfront rfl hpending
  obtain ⟨_, hlook, _⟩ := peek_ok hsteady (by simp) hpeek hfront
  have hall : ∀ t ∈ [target, sign, name, follow], t.kind ≠ .eof := by
    rcases hfollow with ⟨hkind, _⟩ | ⟨hkind, _⟩ <;> simp [htarget, hsign, hname, hkind]
  obtain ⟨q, hpeek'⟩ := @peek_of_pending [target, sign, name, follow] us 4 r hlook.steady hall rfl
    (hlook.pending.trans hpending)
  refine ⟨q, ?_⟩
  rw [assignmentForm, Action.bind_ok hpeek]
  simp only [List.getD_cons_succ, List.getD_cons_zero, hsign, hname, ne_eq, not_true_eq_false,
    reduceCtorEq, if_false]
  rw [Action.bind_ok hpeek']
  rcases hfollow with ⟨hkind, rfl⟩ | ⟨hkind, rfl⟩ <;> simp [hkind]

/-- A statement that is read after a look is read from where the look started. -/
theorem Accepts.of_form {block : Action Parser (List Statement)} {form : Statement.Form}
    {p q : Parser} {t next : Token} {rest us : List Token} {s : Statement} {registry : Registry}
    (hp : p.ahead = []) (hpending : p.pending = t :: rest) (hform : formOf t p = (.ok form, q))
    (h : Looked p q → q.ahead.length ≤ lookahead form →
      Accepts (readForm block form) q s registry next us) :
    Accepts (formOf t >>= readForm block) p s registry next us := by
  obtain ⟨hlook, hahead⟩ := formOf_ok hp hpending hform
  obtain ⟨found, r, hrun, rfl, hnil, ts, hadvance, hleft⟩ := h hlook hahead
  exact Succeeds.bind hform (Succeeds.of_eq hrun
    ⟨rfl, hnil, ts, hlook.advance hp hadvance hnil, hleft⟩)

theorem sentence_accepts {limit : Nat} {block : Action Parser (List Statement)}
    (hblock : AcceptsBodies limit block) {p : Parser} {t next : Token} {ts inner us : List Token}
    {s : Statement} {registry : Registry} (h : Sentence (t :: ts) inner s) (hnext : next.Ends)
    (hkeyed : Keyed (t :: ts)) (hlimit : ts.length ≤ limit) (hahead : p.ahead = [])
    (hpending : p.pending = t :: (ts ++ next :: us))
    (henroll : s.enroll p.registry = some registry) :
    Accepts (formOf t >>= readForm block) p s registry next us := by
  have hsteady := steady_of_ahead_nil hahead
  cases h with
  | assign htarget hsign hnumber hvalue =>
    cases henroll
    obtain ⟨q, hform⟩ := assignmentForm_number hahead htarget hsign hnumber hpending
    refine Accepts.of_form hahead hpending (by rw [formOf, htarget]; exact hform) ?_
    intro hlook hlength
    rw [← hlook.registry]
    exact readAssign_accepts hnext hlook.steady htarget hsign hnumber hvalue hlength
      (hlook.pending.trans hpending)
  | increment htarget hsign hoperand hplus hone hvalue =>
    cases henroll
    obtain ⟨q, hform⟩ :=
      assignmentForm_name hahead htarget hsign hoperand (.inl ⟨hplus, rfl⟩) hpending
    refine Accepts.of_form hahead hpending (by rw [formOf, htarget]; exact hform) ?_
    intro hlook hlength
    rw [← hlook.registry]
    exact readIncrement_accepts hnext hlook.steady htarget hsign hoperand hplus hone hvalue hlength
      (hlook.pending.trans hpending)
  | call htarget hsign hcallee hleft hargs =>
    obtain ⟨d, hfind, hargsLength, rfl⟩ := Statement.enroll_call.mp henroll
    obtain ⟨q, hform⟩ :=
      assignmentForm_name hahead htarget hsign hcallee (.inr ⟨hleft, rfl⟩) hpending
    refine Accepts.of_form hahead hpending (by rw [formOf, htarget]; exact hform) ?_
    intro hlook hlength
    rw [← hlook.registry] at hfind ⊢
    exact readCall_accepts hnext hlook.steady htarget hsign hcallee (hkeyed _ (by simp) hcallee)
      hleft hargs hfind hargsLength
      hlength (hlook.pending.trans hpending)
  | input hword htargets =>
    cases henroll
    refine Accepts.of_form hahead hpending (by rw [formOf, hword]; rfl) fun _ _ => ?_
    exact readInput_accepts hnext hsteady hword htargets hahead hpending
  | output hword hitems hnumbers =>
    cases henroll
    refine Accepts.of_form hahead hpending (by rw [formOf, hword]; rfl) fun _ _ => ?_
    exact readOutput_accepts hnext hsteady hword hitems hnumbers hahead hpending
  | loop hword hcount hopening hbody =>
    refine Accepts.of_form hahead hpending (by rw [formOf, hword]; rfl) fun _ _ => ?_
    refine readLoop_accepts hblock hnext hword hcount hopening hbody ?_ ?_ hahead henroll ?_
    · exact fun u hu => hkeyed u (by simp [hu])
    · simp at hlimit
      omega
    · simpa using hpending
  | define hword hname hleft hparams hnodup hopening hbody =>
    obtain ⟨inside, hinside, hnew, rfl⟩ := Statement.enroll_define.mp henroll
    refine Accepts.of_form hahead hpending (by rw [formOf, hword]; rfl) fun _ _ => ?_
    refine readDefine_accepts hblock hnext hword hname (hkeyed _ (by simp) hname) hleft hparams
      hnodup hopening hbody ?_ ?_ hahead hinside hnew ?_
    · exact fun u hu => hkeyed u (by simp [hu])
    · simp at hlimit
      omega
    · simpa using hpending

theorem Reached.skipSemicolons {p r : Parser} {ts semis us : List Token} {registry : Registry}
    {t : Token} (hsemis : Semicolons semis) (ht : t.kind ≠ .semicolon) {count : Nat}
    (hcount : semis.length < count) (h : Reached p ts registry (semis ++ t :: us) r) :
    ∃ r' q, Parser.skipSemicolons count r = (.ok t, q) ∧ Parser.nextToken r' = (.ok t, q) ∧
      Reached p (ts ++ semis) registry (t :: us) r' := by
  induction count generalizing semis ts r with
  | zero => exact absurd hcount (Nat.not_lt_zero _)
  | succ count ih =>
    rw [Parser.skipSemicolons]
    cases semis with
    | nil =>
      obtain ⟨q, hread⟩ := nextToken_of_pending h.left
      refine ⟨r, q, ?_, hread, by simpa using h⟩
      rw [Action.bind_ok hread, if_neg ht]
      rfl
    | cons semi semis =>
      have hsemi : semi.kind = .semicolon := hsemis semi (by simp)
      obtain ⟨r₁, hread, hreached⟩ := h.nextToken (by simp [hsemi])
      obtain ⟨r', q, hskip, hlast, hreached'⟩ :=
        ih (fun u hu => hsemis u (by simp [hu])) (Nat.lt_of_succ_lt_succ hcount) hreached
      refine ⟨r', q, ?_, hlast, by simpa using hreached'⟩
      rw [Action.bind_ok hread, if_pos hsemi, hskip]

section Statements

variable {p : Parser} {t : Token} {semis us : List Token} (hp : p.ahead = [])
  (hdone : p.done = false) (hsemis : Semicolons semis)
include hp hdone hsemis

theorem nextBy_terminator {block : Action Parser (List Statement)} (ht : t.kind = p.terminator)
    (hsemi : t.kind ≠ .semicolon) (hpending : p.pending = semis ++ t :: us) :
    ∃ r r', Reached p semis p.registry (t :: us) r ∧ nextToken r = (.ok t, r') ∧
      nextBy block p = (.ok none, { r' with done := true }) := by
  have hsize := p.pending_length_le
  rw [hpending, List.length_append, List.length_cons] at hsize
  obtain ⟨r, r', hskip, hnext, hreached⟩ :=
    (Reached.start (steady_of_ahead_nil hp) hpending).skipSemicolons hsemis hsemi
      (show semis.length < p.size by omega)
  refine ⟨r, r', hreached, hnext, ?_⟩
  rw [nextBy, Action.get_bind]
  simp only [hdone, Bool.false_eq_true, if_false]
  rw [Action.bind_ok hskip, if_pos ht]
  rfl

theorem nextBy_sentence {limit : Nat} {block : Action Parser (List Statement)}
    (hblock : AcceptsBodies limit block) {next : Token} {ts inner : List Token} {s : Statement}
    {registry : Registry} (h : Sentence ts inner s) (hnext : next.Ends) (hkeyed : Keyed ts)
    (hlimit : ts.length ≤ limit + 1) (hclose : p.terminator ∉ sentenceStarts)
    (hpending : p.pending = semis ++ (ts ++ next :: us))
    (henroll : s.enroll p.registry = some registry) :
    Succeeds (nextBy block) p fun found q => found = some s ∧ Ended p registry next us q := by
  obtain ⟨t, rest, rfl, ht⟩ := h.exists_cons
  have hkinds : t.kind ≠ .semicolon ∧ t.kind ≠ .eof ∧ t.kind ≠ p.terminator := by
    refine ⟨?_, ?_, fun heq => hclose (heq ▸ ht)⟩
    all_goals rintro hkind
    all_goals simp [hkind, sentenceStarts] at ht
  obtain ⟨hsemi, heof, hterminator⟩ := hkinds
  have hsize := p.pending_length_le
  rw [hpending, List.length_append, List.length_append, List.length_cons] at hsize
  rw [List.cons_append] at hpending
  obtain ⟨r, r', hskip, hread, hreached⟩ :=
    (Reached.start (steady_of_ahead_nil hp) hpending).skipSemicolons hsemis hsemi
      (show semis.length < p.size by omega)
  have hahead : r.ahead = [] := hreached.ahead_nil (by simp [hp])
  obtain ⟨back, hback, hstay, _⟩ := pushBack_of_nextToken hahead hread
  have hbackReached := hstay.reached hreached
  rw [List.append_nil, List.nil_append] at hbackReached
  rw [← hbackReached.registry] at henroll
  obtain ⟨_, q, hrun, rfl, hnil, vs, hadvance, hleft⟩ :=
    sentence_accepts hblock h hnext hkeyed (Nat.le_of_succ_le_succ hlimit)
      (hbackReached.ahead_nil (by simp [hp])) hbackReached.left henroll
  refine ⟨some _, q, ?_, rfl, hnil, _, hbackReached.toAdvance.trans hadvance, hleft⟩
  rw [nextBy, Action.get_bind]
  simp only [hdone, Bool.false_eq_true, if_false]
  rw [Action.bind_ok hskip, if_neg hterminator, if_neg heof, Action.bind_ok hback]
  obtain ⟨form, look, hform, hread'⟩ := Action.bind_eq_ok_iff.mp hrun
  rw [Action.bind_ok hform, Action.bind_ok hread']
  rfl

end Statements

/-- With so much fuel every row of sentences is read whose calls and definitions fit; behind a body
the parser stands where the row ends. -/
def AcceptsRows (fuel : Nat) : Prop :=
  ∀ {p : Parser} {ts inner us : List Token} {body : List Statement} {registry : Registry},
    Sentences p.terminator ts inner body → (p.terminator = .kwEnd ∨ p.terminator = .eof) →
    Keyed ts → ts.length ≤ fuel → p.ahead = [] → p.done = false → p.pending = ts ++ us →
    Statement.enrollAll body p.registry = some registry →
    Succeeds (statements fuel) p fun found q => found = body ∧ q.registry = registry ∧
      (p.terminator ≠ .eof → q.ahead = [] ∧ q.pending = us ∧ q.fault = p.fault)

/-- Where rows are read, so are bodies, by a parser of their own. -/
theorem AcceptsRows.block {fuel : Nat} (h : AcceptsRows fuel) :
    AcceptsBodies fuel (inBlock (statements fuel)) := by
  intro p ts inner us body registry hlimit hbody hkeyed hp hpending henroll
  obtain ⟨_, q, hrun, rfl, hregistry, hrest⟩ :=
    @h (ofLexer p.lexer .kwEnd p.registry) ts inner us body registry hbody (.inl rfl) hkeyed hlimit
      rfl rfl (by simpa [pending, ofLexer, hp] using hpending) henroll
  obtain ⟨hahead, hleft, hfault⟩ := hrest (by simp [ofLexer])
  have hlast : (Parser.mk q.lexer p.ahead q.registry p.terminator p.done p.draft).pending = us := by
    simpa [pending, hp, hahead] using hleft
  refine ⟨_, { p with lexer := q.lexer, registry := q.registry }, ?_, rfl, ?_⟩
  · rw [inBlock, hrun]
  · exact {
      pending := by rw [hpending, hlast]
      fault := hfault
      registry := hregistry
      terminator := rfl
      done := rfl
      ahead := by simp [hp]
      steady := steady_of_ahead_nil hp
      left := hlast }

theorem statements_accepts (fuel : Nat) : AcceptsRows fuel := by
  induction fuel with
  | zero =>
    intro p ts inner us body registry h _ _ hfuel
    obtain ⟨t, rest, rfl, _⟩ := h.head
    simp at hfuel
  | succ fuel ih =>
    intro p ts inner us body registry h hclose hkeyed hfuel hp hdone hpending henroll
    have hsemiClose : p.terminator ≠ .semicolon := by
      rcases hclose with hkind | hkind <;> simp [hkind]
    obtain ⟨semis, hsemis, hcases⟩ := h.unroll
    rcases hcases with ⟨t, rfl, ht, _, rfl⟩ |
      ⟨first, firstInner, s, next, rest, inners, more, rfl, hfirst, hends, hmore, _, rfl⟩
    · cases henroll
      rw [List.append_assoc] at hpending
      obtain ⟨r, r', hreached, hnext, hrun⟩ := @nextBy_terminator p t semis us hp hdone hsemis
        (inBlock (statements fuel)) ht (ht ▸ hsemiClose) hpending
      have hahead : r.ahead = [] := hreached.ahead_nil (by simp [hp])
      refine Succeeds.bind hrun (Succeeds.of_eq rfl ⟨rfl, ?_, fun hne => ?_⟩)
      · have hregistry := (nextToken_closes hahead (ht.trans hreached.terminator.symm) hnext).2
        exact hregistry.trans hreached.registry
      · have hlast := nextToken_ok hreached.steady hnext (ht ▸ hne)
        have hleft := (hlast.reached hreached).left
        have hnil : r'.ahead = [] := nextToken_ahead_nil hahead hnext
        exact ⟨hnil, hleft, hlast.fault.trans hreached.fault⟩
    · obtain ⟨after, henrollFirst, henrollMore⟩ := Statement.enrollAll_cons.mp henroll
      simp only [List.length_append, List.length_cons] at hfuel
      have hsome : 0 < first.length := by
        obtain ⟨_, _, rfl, _⟩ := hfirst.exists_cons
        simp
      obtain ⟨_, q, hrun, rfl, hahead, read, hadvance, hleft⟩ :=
        @nextBy_sentence p semis (rest ++ us) hp hdone hsemis fuel _ ih.block next first firstInner s
          after hfirst hends (fun u hu => hkeyed u (by simp [hu])) (by omega)
          (by rcases hclose with hkind | hkind <;> simp [hkind, sentenceStarts])
          (by simpa using hpending) henrollFirst
      refine Succeeds.bind hrun ?_
      rw [← hadvance.registry] at henrollMore
      rw [← hadvance.terminator] at hmore hclose
      have hdone' : q.done = false := hadvance.done.trans hdone
      -- A semicolon behind the sentence is used up and says nothing about what follows.
      have hmoreRun : Succeeds (statements fuel) q fun found q' => found = more ∧
          q'.registry = registry ∧
          (q.terminator ≠ .eof → q'.ahead = [] ∧ q'.pending = us ∧ q'.fault = q.fault) := by
        rcases hleft with ⟨hsemi, hleft⟩ | hleft
        · refine ih (hmore.tail ?_ hsemi) hclose ?_ (by omega) hahead hdone' hleft henrollMore
          · rwa [hadvance.terminator]
          · exact fun u hu => hkeyed u (by simp [hu])
        · refine ih hmore hclose ?_ (by simp; omega) hahead hdone' hleft henrollMore
          exact fun u hu => hkeyed u (by
            simp only [List.mem_cons] at hu
            rcases hu with rfl | hu <;> simp_all)
      obtain ⟨_, q', hrun', rfl, hregistry, hrest⟩ := hmoreRun
      rw [hadvance.terminator, hadvance.fault] at hrest
      exact Succeeds.bind hrun' (Succeeds.of_eq rfl ⟨rfl, hregistry, hrest⟩)

end Parser

/-- By descent a source becomes the statements whose sentences its tokens are, where the calls and
definitions fit and the source has no lexical error. -/
theorem parseByDescent_eq_ok {source : String} {registry after : Registry}
    {body : List Statement} :
    parseByDescent source registry = (.ok body, after) ↔
      (Lexer.ofSource source false).tokens.2.1 = none ∧
      (∃ inner, Sentences .eof (Lexer.ofSource source false).tokens.1 inner body) ∧
      Statement.enrollAll body registry = some after := by
  let p := Parser.ofLexer (Lexer.ofSource source false) .eof registry
  have hrun : parseByDescent source registry =
      ((Parser.statements p.size p).1, (Parser.statements p.size p).2.registry) := rfl
  constructor
  · intro h
    cases hstatements : Parser.statements p.size p with
    | mk result q =>
      rw [hrun, hstatements] at h
      cases h
      obtain ⟨ts, inner, hts, henroll, hcloses⟩ := Parser.statements_ok rfl rfl hstatements
      obtain ⟨hpending, hfault⟩ := (if_pos rfl).mp hcloses
      have htokens : (Lexer.ofSource source false).tokens.1 = ts := hpending
      exact ⟨hfault, ⟨inner, htokens ▸ hts⟩, henroll⟩
  · rintro ⟨_, ⟨inner, hts⟩, henroll⟩
    have hkeyed : Parser.Keyed p.pending := fun t ht hkind =>
      (Lexer.tokens_lexical p.lexer rfl t ht).isKey hkind
    obtain ⟨_, q, hstatements, rfl, hregistry, _⟩ :=
      @Parser.statements_accepts p.size p p.pending inner [] body after hts (.inr rfl) hkeyed
        p.pending_length_le rfl rfl (List.append_nil _).symm henroll
    rw [hrun, hstatements, hregistry]

end LoopLanguage
