import Mathlib
import LoopLanguage.Proofs.Outcomes

/-!
What parsers hand to each other. Tokens that were looked at are kept by the parser that looked, a
token that was pushed back is kept by the lexer, and a body is read by a parser of its own: it would
miss what the parser around it still holds. A parse can be watched: `watch` is the parser with a
check at every moment where a statement is about to be read, where a body is about to be read and
where a statement was read. No check that passes all orderly moments ever stops a parse.
-/

namespace LoopLanguage

theorem Action.bind_congr {σ α β : Type} {act : Action σ α} {f g : α → Action σ β} {s : σ}
    (h : ∀ a t, act s = (.ok a, t) → f a t = g a t) : (act >>= f) s = (act >>= g) s := by
  cases hact : act s with
  | mk r t =>
    cases r with
    | ok a => rw [bind_ok hact, bind_ok hact, h a t hact]
    | error e => rw [bind_error hact, bind_error hact]

theorem Action.bind_congr_left {σ α β : Type} {act other : Action σ α} {s : σ}
    (h : act s = other s) (f : α → Action σ β) : (act >>= f) s = (other >>= f) s := by
  show Action.bind act f s = Action.bind other f s
  rw [Action.bind, Action.bind, h]

/-- A token that was pushed back is the next one. -/
theorem Lexer.tokens_head_of_pushed {lexer : Lexer} {t : Token} (h : lexer.pushed = some t) :
    lexer.tokens.1.head? = some t := by
  have hnext := next_of_pushed h
  by_cases ht : t.kind = .eof
  · rw [tokens_of_eof hnext ht]
    rfl
  · rw [tokens_of_ok hnext ht]
    rfl

/-- What stands before a body. -/
inductive Heading : List Token → Prop
  | loop {word count : Token} {opening : List Token} (hword : word.kind = .kwLoop)
      (hcount : count.kind = .identifier) (hopening : MaybeDo opening) :
      Heading (word :: count :: opening)
  | define {word name left opening : Token} {ts : List Token} {params : List Atom}
      (hword : word.kind = .kwProgram) (hname : name.kind = .identifier)
      (hleft : left.kind = .leftParen) (hparams : NameList ts params)
      (hopening : opening.kind = .kwDo) : Heading (word :: name :: left :: (ts ++ [opening]))

namespace Parser

/-! ### Moments of a parse -/

/-- What is left of the tokens of the source. At the end of the source that is nothing, although the
lexer would give the end token again. -/
def unread (p : Parser) : List Token :=
  if p.done = true ∧ p.terminator = .eof then [] else p.lexer.tokens.1

inductive Moment
  /-- The parser is about to read its next statement. -/
  | enters (p : Parser)
  /-- The parser that was `p` when it entered is about to have a body read. -/
  | opens (p r : Parser)
  /-- The parser that was `p` when it entered has read that statement, or its terminator. -/
  | leaves (p : Parser) (found : Option Statement) (q : Parser)

namespace Moment

/-- The parser at work as it is at that moment. -/
def now : Moment → Parser
  | enters p => p
  | opens _ r => r
  | leaves _ _ q => q

/-- The tokens that were used up since the parser entered are those of what it has read. -/
def Accounted : Moment → Prop
  | enters _ => True
  | opens p r => ∃ semis heading, Semicolons semis ∧ Heading heading ∧
      p.unread = semis ++ heading ++ r.unread
  | leaves p (some s) q => ∃ semis ts inner sep, Semicolons semis ∧ Sentence ts inner s ∧
      Semicolons sep ∧ p.unread = semis ++ ts ++ sep ++ q.unread
  | leaves p none q => ∃ semis last, Semicolons semis ∧ last.kind = p.terminator ∧
      p.unread = semis ++ [last] ++ q.unread

/-- The moment is in order, where `above` are the parsers in whose bodies the parser at work is:
none of them looks ahead, a token that is pushed back is the first one that is left, and what is
left comes right after what was used up. -/
structure Orderly (source : String) (above : List Parser) (moment : Moment) : Prop where
  ahead : ∀ p ∈ moment.now :: above, p.ahead = []
  pushed : ∀ t, moment.now.lexer.pushed = some t → moment.now.unread.head? = some t
  taken : ∃ taken, (Lexer.ofSource source false).tokens.1 = taken ++ moment.now.unread
  accounted : moment.Accounted

end Moment

/-- The statements up to the terminator, read under a check that can stop the parse. -/
def watch (check : List Parser → Moment → Except Error Unit) :
    Nat → List Parser → Action Parser (List Statement)
  | 0, _ => Action.fail .exhausted
  | fuel + 1, above => do
    let p ← Action.get
    Action.ofExcept (check above (.enters p))
    let found ← nextBy do
      let r ← Action.get
      Action.ofExcept (check above (.opens p r))
      inBlock (watch check fuel (r :: above))
    let q ← Action.get
    Action.ofExcept (check above (.leaves p found q))
    match found with
    | none => return []
    | some s => return s :: (← watch check fuel above)

/-! ### Where bodies are read -/

namespace Advance

/-! Two readers that start alike are followed together: what was read so far, and what is left of
both. -/

variable {p r : Parser} {ts : List Token} {registry : Registry} {context : String} {α : Type}

theorem note_congr (h : Advance p ts registry r) {draft : Draft} {f g : Unit → Action Parser α}
    (hfg : ∀ r', Advance p ts registry r' → f () r' = g () r') :
    (Parser.note draft >>= f) r = (Parser.note draft >>= g) r :=
  hfg { r with draft } { h with }

theorem expect_congr (h : Advance p ts registry r) {kind : Kind} (hkind : kind ≠ .eof)
    {f g : Token → Action Parser α}
    (hfg : ∀ t r', t.kind = kind → Advance p (ts ++ [t]) registry r' → f t r' = g t r') :
    (Parser.expect kind context >>= f) r = (Parser.expect kind context >>= g) r := by
  refine Action.bind_congr fun t r' hexpect => ?_
  obtain ⟨ht, hadvance⟩ := expect_ok h.steady hexpect hkind
  rw [h.registry] at hadvance
  exact hfg t r' ht (h.trans hadvance)

theorem nameList_congr (h : Advance p ts registry r) {f g : List Atom → Action Parser α}
    (hfg : ∀ us names r', NameList us names → Advance p (ts ++ us) registry r' →
      f names r' = g names r') :
    (Parser.nameList context >>= f) r = (Parser.nameList context >>= g) r := by
  refine Action.bind_congr fun names r' hnames => ?_
  obtain ⟨us, hus, hadvance⟩ := nameList_ok h.steady hnames
  rw [h.registry] at hadvance
  exact hfg us names r' hus (h.trans hadvance)

theorem skipDo_congr (h : Advance p ts registry r) (hr : r.ahead = [])
    {f g : Unit → Action Parser α}
    (hfg : ∀ opening r', MaybeDo opening → Advance p (ts ++ opening) registry r' →
      f () r' = g () r') : (skipDo >>= f) r = (skipDo >>= g) r := by
  refine Action.bind_congr fun _ r' hskip => ?_
  obtain ⟨opening, hopening, hadvance⟩ := skipDo_ok hr hskip
  rw [h.registry] at hadvance
  exact hfg opening r' hopening (h.trans hadvance)

end Advance

section Congruence

variable {block other : Action Parser (List Statement)} {p : Parser}

/-- Behind a heading that starts at `p`, both readers of bodies do the same. -/
def SameBodies (block other : Action Parser (List Statement)) (p : Parser) : Prop :=
  ∀ r heading, Heading heading → r.ahead = [] → Advance p heading p.registry r → block r = other r

theorem readLoop_congr (hp : p.ahead = []) (h : SameBodies block other p) :
    readLoop block p = readLoop other p := by
  refine (Advance.refl (steady_of_ahead_nil hp)).expect_congr (by simp) fun word _ hword h₁ => ?_
  refine h₁.expect_congr (by simp) fun count _ hcount h₂ => ?_
  refine h₂.note_congr fun _ h₃ => ?_
  refine h₃.skipDo_congr (h₃.ahead_nil (by simp [hp])) fun opening r hopening h₄ => ?_
  have hr : r.ahead = [] := h₄.ahead_nil (by simp [hp])
  exact Action.bind_congr_left (h r _ (.loop hword hcount hopening) hr h₄) _

theorem readDefine_congr (hp : p.ahead = []) (h : SameBodies block other p) :
    readDefine block p = readDefine other p := by
  refine (Advance.refl (steady_of_ahead_nil hp)).expect_congr (by simp) fun word _ hword h₁ => ?_
  refine h₁.expect_congr (by simp) fun name _ hname h₂ => ?_
  rw [Action.get_bind, Action.get_bind]
  refine Action.bind_congr fun known r₂' htest => ?_
  obtain ⟨_, rfl⟩ := Action.ofExcept_eq_ok_iff.mp htest
  split
  · rfl
  · refine h₂.note_congr fun _ h₃ => ?_
    refine h₃.expect_congr (by simp) fun left _ hleft h₄ => ?_
    refine h₄.nameList_congr fun ts params _ hparams h₅ => ?_
    split
    · rfl
    · refine h₅.note_congr fun _ h₆ => ?_
      refine h₆.expect_congr (by simp) fun opening r hopening h₇ => ?_
      have hr : r.ahead = [] := h₇.ahead_nil (by simp [hp])
      exact Action.bind_congr_left
        (h r _ (.define hword hname hleft hparams hopening) hr (by simpa using h₇)) _

theorem readForm_congr {form : Statement.Form} (hp : p.ahead.length ≤ lookahead form)
    (h : SameBodies block other p) : readForm block form p = readForm other form p := by
  cases form with
  | loop => exact readLoop_congr (List.length_eq_zero_iff.mp (Nat.le_zero.mp hp)) h
  | define => exact readDefine_congr (List.length_eq_zero_iff.mp (Nat.le_zero.mp hp)) h
  | _ => rfl

/-- From `p` to `r` semicolons and the heading of a body were read. -/
def Opens (p r : Parser) : Prop :=
  r.ahead = [] ∧ ∃ semis heading, Semicolons semis ∧ Heading heading ∧
    Advance p (semis ++ heading) p.registry r

/-- A statement is read alike by readers of bodies that do the same behind headings. -/
theorem nextBy_congr (hp : p.ahead = []) (h : ∀ r, Opens p r → block r = other r) :
    nextBy block p = nextBy other p := by
  rw [nextBy, nextBy, Action.get_bind, Action.get_bind]
  split
  · rfl
  · refine Action.bind_congr fun t q hskip => ?_
    obtain ⟨semis, start, hsemis, hadvance, hahead, hnext⟩ := skipSemicolons_ok hp hskip
    split
    · rfl
    · split
      · rfl
      · obtain ⟨back, hback, hstay, us, hpending⟩ := pushBack_of_nextToken hahead hnext
        have hnil : back.ahead = [] := hstay.ahead_nil (by simp [hahead])
        rw [Action.bind_ok hback, Action.bind_ok hback]
        refine Action.bind_congr fun form look hform => ?_
        obtain ⟨hlook, hlength⟩ := formOf_ok hnil hpending hform
        -- The forms that have a body are told by their first token, so nothing is looked ahead at.
        refine Action.bind_congr_left
          (readForm_congr hlength fun r heading hheading hr hread => ?_) _
        have hstart := hadvance.trans hstay
        rw [List.append_nil, hadvance.registry] at hstart
        have hread := hlook.advance hnil hread hr
        rw [hlook.registry, hstart.registry] at hread
        exact h r ⟨hr, semis, heading, hsemis, hheading, hstart.trans hread⟩

end Congruence

/-! ### Watched parses -/

/-- The parser is reading and looks ahead at nothing, like those above it, and what it has pending
is all that comes after the tokens that were used up. -/
structure Live (source : String) (above : List Parser) (p : Parser) : Prop where
  ahead : p.ahead = []
  above : ∀ q ∈ above, q.ahead = []
  done : p.done = false
  taken : ∃ taken, (Lexer.ofSource source false).tokens.1 = taken ++ p.pending

namespace Live

variable {source : String} {above : List Parser} {p q r : Parser}

theorem unread (h : Live source above p) : p.unread = p.pending := by
  simp [Parser.unread, Parser.pending, h.done, h.ahead]

theorem advance (h : Live source above p) {ts : List Token} {registry : Registry}
    (hadvance : Advance p ts registry q) (hq : q.ahead = []) : Live source above q where
  ahead := hq
  above := h.above
  done := hadvance.done.trans h.done
  taken := by
    obtain ⟨taken, htaken⟩ := h.taken
    exact ⟨taken ++ ts, by rw [htaken, hadvance.pending, List.append_assoc]⟩

/-- The parser of a body takes over where its heading ends. -/
theorem inner (h : Live source above r) :
    Live source (r :: above) (ofLexer r.lexer .kwEnd r.registry) where
  ahead := rfl
  above := List.forall_mem_cons.mpr ⟨h.ahead, h.above⟩
  done := rfl
  taken := by
    obtain ⟨taken, htaken⟩ := h.taken
    exact ⟨taken, by rw [htaken, Parser.pending, h.ahead]; rfl⟩

theorem orderly (h : Live source above p) {moment : Moment} (hnow : moment.now = p)
    (hmoment : moment.Accounted) : moment.Orderly source above where
  ahead := by
    rw [hnow]
    exact List.forall_mem_cons.mpr ⟨h.ahead, h.above⟩
  pushed := by
    intro t ht
    rw [hnow] at ht ⊢
    rw [h.unread, Parser.pending, h.ahead, List.nil_append]
    exact Lexer.tokens_head_of_pushed ht
  taken := by
    rw [hnow, h.unread]
    exact h.taken
  accounted := hmoment

theorem opens (h : Live source above p) (hopens : Opens p r) :
    Live source above r ∧ Moment.Orderly source above (.opens p r) := by
  obtain ⟨hr, semis, heading, hsemis, hheading, hadvance⟩ := hopens
  have hlive := h.advance hadvance hr
  refine ⟨hlive, hlive.orderly rfl ⟨semis, heading, hsemis, hheading, ?_⟩⟩
  rw [h.unread, hlive.unread, hadvance.pending]

/-- A statement that was read leaves the parser live. -/
theorem leaves_some {block : Action Parser (List Statement)} (hblock : ReadsBodies block)
    (h : Live source above p) {s : Statement} (hrun : nextBy block p = (.ok (some s), q)) :
    Live source above q ∧ Moment.Orderly source above (.leaves p (some s) q) := by
  obtain ⟨semis, start, hsemis, hskip, _, hreads⟩ := nextBy_ok hblock h.ahead h.done hrun
  obtain ⟨ts, inner, sep, registry, hts, _, ⟨hq, hsep⟩, hread⟩ := hreads
  have hadvance := hskip.trans hread
  have hlive := h.advance hadvance hq
  have hseps : Semicolons sep := by
    rcases hsep with ⟨semi, rfl, hsemi⟩ | ⟨rfl, _⟩
    · simpa [Semicolons] using hsemi
    · simp [Semicolons]
  refine ⟨hlive, hlive.orderly rfl ⟨semis, ts, inner, sep, hsemis, hts, hseps, ?_⟩⟩
  rw [h.unread, hlive.unread, hadvance.pending]
  simp only [List.append_assoc]

/-- A parser that has read its terminator leaves what comes after it, and at the end of the source
nothing is left. -/
theorem leaves_none {block : Action Parser (List Statement)} (hblock : ReadsBodies block)
    (h : Live source above p) (hrun : nextBy block p = (.ok none, q)) :
    Moment.Orderly source above (.leaves p none q) := by
  obtain ⟨semis, start, hsemis, hskip, hstart, last, r, hlast, hnext, rfl⟩ :=
    nextBy_ok hblock h.ahead h.done hrun
  have hahead := nextToken_ahead_nil hstart hnext
  have hpushed := nextToken_pushed (steady_of_ahead_nil hstart) hnext
  have hunread : start.pending = [last] ++ Parser.unread { r with done := true } := by
    by_cases heof : last.kind = .eof
    · obtain ⟨hpending, _, hr⟩ := nextToken_eof hstart hnext heof
      have hterminator : r.terminator = .eof := by
        rw [hr, ← heof, hlast]
        exact hskip.terminator
      simp [Parser.unread, hterminator, hpending]
    · have hadvance := nextToken_ok (steady_of_ahead_nil hstart) hnext heof
      have hterminator : r.terminator ≠ .eof := by
        rw [hadvance.terminator, hskip.terminator, ← hlast]
        exact heof
      rw [hadvance.pending]
      simp [Parser.unread, hterminator, Parser.pending, hahead]
  have hall : p.unread = semis ++ [last] ++ Parser.unread { r with done := true } := by
    rw [h.unread, hskip.pending, hunread, List.append_assoc]
  obtain ⟨taken, htaken⟩ := h.taken
  have hsplit : (Lexer.ofSource source false).tokens.1 =
      taken ++ (semis ++ [last]) ++ Parser.unread { r with done := true } := by
    rw [htaken, ← h.unread, hall, ← List.append_assoc]
  exact {
    ahead := List.forall_mem_cons.mpr ⟨hahead, h.above⟩
    pushed := fun t ht => by cases hpushed.symm.trans ht
    taken := ⟨_, hsplit⟩
    accounted := ⟨semis, last, hsemis, hlast, hall⟩ }

end Live

/-- A check that passes the orderly moments does not change what is read. -/
theorem watch_eq {source : String} {check : List Parser → Moment → Except Error Unit}
    (hcheck : ∀ above moment, moment.Orderly source above → check above moment = .ok ())
    (fuel : Nat) {above : List Parser} {p : Parser} (h : Live source above p) :
    watch check fuel above p = statements fuel p := by
  induction fuel generalizing above p with
  | zero => rfl
  | succ fuel ih =>
    have hblock : ReadsBodies (inBlock (statements fuel)) := inBlock_ok statements_ok
    rw [watch, statements, Action.get_bind, hcheck above (.enters p) (h.orderly rfl trivial)]
    show (nextBy _ >>= _) p = _
    have hnext : nextBy (do
        let r ← Action.get
        Action.ofExcept (check above (.opens p r))
        inBlock (watch check fuel (r :: above))) p = nextBy (inBlock (statements fuel)) p := by
      refine nextBy_congr h.ahead fun r hopens => ?_
      obtain ⟨hlive, horderly⟩ := h.opens hopens
      rw [Action.get_bind, hcheck above (.opens p r) horderly]
      -- The parser of the body is live with one more parser above it.
      show inBlock (watch check fuel (r :: above)) r = inBlock (statements fuel) r
      rw [inBlock, inBlock, ih hlive.inner]
    rw [Action.bind_congr_left hnext]
    refine Action.bind_congr fun found q hrun => ?_
    rw [Action.get_bind]
    cases found with
    | none =>
      rw [hcheck above _ (h.leaves_none hblock hrun)]
      rfl
    | some s =>
      obtain ⟨hlive, horderly⟩ := h.leaves_some hblock hrun
      rw [hcheck above _ horderly]
      show (watch check fuel above >>= _) q = _
      exact Action.bind_congr_left (ih hlive) _

end Parser

/-- Parsing by descent under a check that can stop the parse. -/
def watchByDescent (check : List Parser → Parser.Moment → Except Error Unit) (source : String) :
    Action Registry (List Statement) := fun registry =>
  let p := Parser.ofLexer (Lexer.ofSource source false) .eof registry
  match Parser.watch check p.size [] p with
  | (r, parser) => (r, parser.registry)

/-- Parsers hold nothing back from each other. Whatever the source, a check that passes all orderly
moments does not change its parse, so that none of its moments is out of order. No token is pushed
back while another one is, and if the parse succeeds, the tokens up to the end of the source are, in
their order, those of the statements. -/
theorem parsing_orderly (source : String) (registry : Registry) :
    (∀ check : List Parser → Parser.Moment → Except Error Unit,
      (∀ above moment, moment.Orderly source above → check above moment = .ok ()) →
        watchByDescent check source registry = parseByDescent source registry) ∧
    (∀ token held, (parseByDescent source registry).1 ≠ .error (.pushbackTaken token held)) ∧
    ∀ body after, parseByDescent source registry = (.ok body, after) →
      ∃ front last inner, (Lexer.ofSource source false).tokens.1 = front ++ [last] ∧
        last.kind = .eof ∧ Sentences .eof (front ++ [last]) inner body := by
  refine ⟨?_, ?_, ?_⟩
  · intro check hcheck
    have hlive : Parser.Live source []
        (Parser.ofLexer (Lexer.ofSource source false) .eof registry) :=
      ⟨rfl, by simp, rfl, [], rfl⟩
    rw [watchByDescent, Parser.watch_eq hcheck _ hlive]
    rfl
  · intro token held hpushed
    have hdocumented := parseByDescent_documented source registry
    rw [hpushed] at hdocumented
    cases hdocumented with
    | scanning _ hscanning => exact hscanning
    | parsing hcategory => cases hcategory
  · intro body after hparse
    obtain ⟨_, ⟨inner, hts⟩, _⟩ := parseByDescent_eq_ok.mp hparse
    obtain ⟨front, last, hclose, hlast⟩ := hts.exists_close
    exact ⟨front, last, inner, hclose, hlast, hclose ▸ hts⟩

/-- The call looks four tokens ahead, behind a definition with a loop in its body. The check looks
at all parsers that are at work. -/
theorem parsing_orderly_nested :
    watchByDescent
        (fun above moment => if ∀ p ∈ moment.now :: above, p.ahead = [] then .ok ()
          else .error .formless)
        "PROGRAM P(a) DO LOOP a DO X0 := X0 + 1 END END; y := P(n)" [] =
      parseByDescent "PROGRAM P(a) DO LOOP a DO X0 := X0 + 1 END END; y := P(n)" [] ∧
    ∃ body after,
      parseByDescent "PROGRAM P(a) DO LOOP a DO X0 := X0 + 1 END END; y := P(n)" [] =
        (.ok body, after) ∧
      ∃ front last inner,
        (Lexer.ofSource "PROGRAM P(a) DO LOOP a DO X0 := X0 + 1 END END; y := P(n)"
          false).tokens.1 = front ++ [last] ∧
        last.kind = .eof ∧ Sentences .eof (front ++ [last]) inner body := by
  obtain ⟨hwatch, _, hall⟩ :=
    parsing_orderly "PROGRAM P(a) DO LOOP a DO X0 := X0 + 1 END END; y := P(n)" []
  have hparse : ∃ body after,
      parseByDescent "PROGRAM P(a) DO LOOP a DO X0 := X0 + 1 END END; y := P(n)" [] =
        (.ok body, after) := ⟨_, _, by cbv⟩
  obtain ⟨body, after, hparse⟩ := hparse
  exact ⟨hwatch _ fun above moment h => if_pos h.ahead, body, after, hparse, hall body after hparse⟩

end LoopLanguage
