import Mathlib
import LoopLanguage.Proofs.Outcomes
import LoopLanguage.Proofs.Positions

/-!
The tokens of a parser as one stream. They wait in three places: the parser keeps those it has looked
at, the lexer keeps one that was pushed back, and all others are still to be scanned. However a parser
is used, this cannot be told from a single stream to whose front tokens can be put. There is one
limit: where the parser keeps no token, one that is pushed back goes to the lexer, which has room for
one.

The stream has no end. Behind the end of a source there are end tokens only, and a lexer that failed
can be read on from, so that an error is an entry of the stream like a token.
-/

namespace LoopLanguage

namespace Lexer

theorem scan_pushed (lexer : Lexer) : (scan lexer).2.pushed = lexer.pushed := by
  cases hscan : scan lexer with
  | mk r after =>
    cases r with
    | ok t => exact (scan_eq_ok hscan).pushed
    | error e => cases scan_eq_error hscan <;> rfl

/-- Reading a token leaves none pushed back, also if it fails. -/
theorem next_leaves_none {lexer after : Lexer} {r : Except Error Token}
    (h : next lexer = (r, after)) : after.pushed = none := by
  unfold next at h
  split at h
  · cases h
    rfl
  · next hp =>
    have hscan : ∀ l : Lexer, l.pushed = none → (scan l).2.pushed = none :=
      fun l hl => (scan_pushed l).trans hl
    have hkept := scanWanted_keeps hscan (fun _ _ hl => hl) hp lexer.rest.length
    rwa [h] at hkept

theorem next_error_scanning {lexer after : Lexer} {e : Error}
    (h : next lexer = (.error e, after)) : e.IsScanning := by
  cases hp : lexer.pushed with
  | some held =>
    rw [next_of_pushed hp] at h
    cases h
  | none =>
    refine (tokens_stand hp).2 e ?_
    rw [tokens_of_error h]

/-- What the lexer gives call after call, the token that is pushed back aside. -/
def scans (lexer : Lexer) : Stream' (Except Error Token) :=
  Stream'.corec (fun l => (next l).1) (fun l => (next l).2) { lexer with pushed := none }

theorem unpushed_eq {lexer : Lexer} (hp : lexer.pushed = none) :
    { lexer with pushed := none } = lexer := by
  rw [← hp]

theorem scans_of_next {lexer after : Lexer} {r : Except Error Token} (hp : lexer.pushed = none)
    (h : next lexer = (r, after)) : lexer.scans = Stream'.cons r after.scans := by
  rw [scans, unpushed_eq hp, Stream'.corec_eq, h, scans, unpushed_eq (next_leaves_none h)]

/-- At the end of the source there is nothing but end tokens. -/
theorem scans_at_end {lexer : Lexer} (hp : lexer.pushed = none) (hrest : lexer.rest = [])
    (hline : lexer.lineStart = false) :
    lexer.scans = Stream'.const (.ok ⟨.eof, .absent, lexer.place, false⟩) := by
  have hgaps : lexer.skipGaps = lexer := by
    cases lexer
    cases hrest
    rfl
  have hscan : scan lexer = (.ok ⟨.eof, .absent, lexer.place, false⟩, lexer) := by
    simp only [scan, hgaps, hrest, Lexeme.read?, hline]
  have hnoted : lexer.noted ⟨.eof, .absent, lexer.place, false⟩ = lexer := by
    simp [noted, startsLine, ← hline]
  have hnext := next_of_wanted hp hscan rfl
  rw [hnoted] at hnext
  have hsame := scans_of_next hp hnext
  refine Stream'.ext fun n => ?_
  induction n with
  | zero => rw [hsame]; rfl
  | succ n ih => rw [hsame]; exact ih

/-- What comes behind the tokens of a lexer: the end over and over, or the error and whatever is
read after it. -/
def beyond (lexer : Lexer) : Stream' (Except Error Token) :=
  match lexer.tokens.2 with
  | (none, last) => Stream'.const (.ok ⟨.eof, .absent, last.place, false⟩)
  | (some e, last) => Stream'.cons (.error e) last.scans

theorem scans_after_eof {lexer after : Lexer} {t : Token} (hp : lexer.pushed = none)
    (h : next lexer = (.ok t, after)) (ht : t.kind = .eof) :
    after.scans = Stream'.const (.ok ⟨.eof, .absent, after.place, false⟩) := by
  have hpushed := next_pushed h
  obtain ⟨before, last, hscan, rfl, _⟩ := next_scanned hp h
  cases hscan with
  | lexeme _ hdenotes => exact absurd ht hdenotes.kind_ne_eof
  | finish hread => exact scans_at_end hpushed (Lexeme.eq_nil_of_read? hread) rfl

theorem scans_eq_tokens {lexer : Lexer} (hp : lexer.pushed = none) :
    lexer.scans = lexer.tokens.1.map .ok ++ₛ lexer.beyond := by
  induction hmeasure : lexer.measure using Nat.strongRecOn generalizing lexer with
  | ind n ih =>
    cases hnext : next lexer with
    | mk r after =>
      rw [scans_of_next hp hnext]
      cases r with
      | error e => simp [beyond, tokens_of_error hnext]
      | ok t =>
        by_cases ht : t.kind = .eof
        · rw [scans_after_eof hp hnext ht]
          simp [beyond, tokens_of_eof hnext ht, Stream'.cons_append_stream]
        · have hrest := ih _ (hmeasure ▸ next_measure hnext ht) (next_pushed hnext) rfl
          rw [hrest]
          simp [beyond, tokens_of_ok hnext ht, Stream'.cons_append_stream]

end Lexer

/-- The token has a text or none. -/
def Token.Plain (t : Token) : Prop := t.text = .absent ∨ t.text.IsText

theorem Token.Plain.shown {t : Token} (h : t.Plain) : t.shown = .ok t.display := by
  rcases h with habsent | htext
  · simp [Token.shown, showsLiteral, habsent, Atom.isPresent, Atom.shown, Atom.isWritable,
      Atom.toJson, Json.isWritable, bind, Except.bind, pure, Except.pure]
  · cases hatom : t.text with
    | text s =>
      unfold Token.shown
      split
      · simp [hatom, Atom.literal?]
      · simp [hatom, Atom.shown, bind, Except.bind, pure, Except.pure]
    | absent | other => simp [hatom, Atom.IsText] at htext

theorem Error.raised_pushbackTaken {t held : Token} (ht : t.Plain) (hheld : held.Plain) :
    Error.raised (.pushbackTaken t held) = .pushbackTaken t held := by
  rw [Error.raised, Error.showAll, ht.shown, hheld.shown]
  rfl

namespace Parser

/-- All that is still to be read: the tokens looked ahead at, the token pushed back, and what is
still to be scanned. -/
def stream (p : Parser) : Stream' (Except Error Token) :=
  (p.ahead ++ p.lexer.pushed.toList).map .ok ++ₛ p.lexer.scans

theorem stream_append (p : Parser) (ts : List Token) :
    Parser.stream { p with ahead := ts ++ p.ahead } = ts.map .ok ++ₛ p.stream := by
  simp [stream]

/-- Reading takes the first entry off the stream, be it a token or an error. -/
theorem nextToken_stream {p q : Parser} {r : Except Error Token} (h : nextToken p = (r, q)) :
    p.stream = Stream'.cons r q.stream := by
  obtain ⟨t, ahead, hahead, rfl, rfl⟩ | ⟨hahead, lexer, hnext, rfl⟩ := nextToken_cases h
  · simp [stream, hahead, Stream'.cons_append_stream]
  · have hnone := Lexer.next_leaves_none hnext
    cases hp : p.lexer.pushed with
    | some held =>
      rw [Lexer.next_of_pushed hp] at hnext
      cases hnext
      simp only [stream, hahead, hp]
      rfl
    | none => simp [stream, hahead, hp, hnone, Lexer.scans_of_next hp hnext]

theorem nextToken_error_scanning {p q : Parser} {e : Error} (h : nextToken p = (.error e, q)) :
    e.IsScanning := by
  obtain ⟨_, _, _, hr, _⟩ | ⟨_, _, hnext, _⟩ := nextToken_cases h
  · cases hr
  · exact Lexer.next_error_scanning hnext

theorem takeTokens_stream {count : Nat} {p q : Parser} {ts : List Token}
    (h : takeTokens count p = (.ok ts, q)) :
    ts.length = count ∧ p.stream = ts.map .ok ++ₛ q.stream := by
  induction count generalizing p ts with
  | zero =>
    cases h
    exact ⟨rfl, rfl⟩
  | succ count ih =>
    obtain ⟨t, r, hnext, hrest⟩ := Action.bind_eq_ok_iff.mp h
    obtain ⟨us, r', htake, hdone⟩ := Action.bind_eq_ok_iff.mp hrest
    cases hdone
    obtain ⟨hlength, hstream⟩ := ih htake
    refine ⟨by rw [List.length_cons, hlength], ?_⟩
    rw [nextToken_stream hnext, hstream]
    rfl

/-- If a token cannot be read, those before it are gone with it. -/
theorem takeTokens_fails {count : Nat} {p q : Parser} {e : Error}
    (h : takeTokens count p = (.error e, q)) :
    e.IsScanning ∧ ∃ ts : List Token, ts.length < count ∧
      p.stream = ts.map .ok ++ₛ Stream'.cons (.error e) q.stream := by
  induction count generalizing p with
  | zero => cases h
  | succ count ih =>
    obtain hfail | ⟨t, r, hnext, hrest⟩ := Action.bind_eq_error_iff.mp h
    · exact ⟨nextToken_error_scanning hfail, [], by simp, nextToken_stream hfail⟩
    · obtain hfail | ⟨us, r', _, hdone⟩ := Action.bind_eq_error_iff.mp hrest
      · obtain ⟨hscanning, ts, hlength, hstream⟩ := ih hfail
        refine ⟨hscanning, t :: ts, by simpa using hlength, ?_⟩
        rw [nextToken_stream hnext, hstream]
        rfl
      · cases hdone

theorem peek_stream {count : Nat} {p q : Parser} {ts : List Token}
    (h : peek count p = (.ok ts, q)) :
    p.stream.take count = ts.map .ok ∧ q.stream = p.stream := by
  obtain ⟨us, r, htake, hrest⟩ := Action.bind_eq_ok_iff.mp h
  cases hrest
  obtain ⟨hlength, hstream⟩ := takeTokens_stream htake
  refine ⟨?_, (stream_append r ts).trans hstream.symm⟩
  have hcount : count = (ts.map (Except.ok : Token → Except Error Token)).length := by
    rw [List.length_map, hlength]
  rw [hstream, hcount, Stream'.take_append_of_le_length _ _ _ (Nat.le_refl _), List.take_length]

theorem peek_fails {count : Nat} {p q : Parser} {e : Error} (h : peek count p = (.error e, q)) :
    e.IsScanning ∧ ∃ ts : List Token, ts.length < count ∧
      p.stream = ts.map .ok ++ₛ Stream'.cons (.error e) q.stream := by
  obtain hfail | ⟨_, _, _, hdone⟩ := Action.bind_eq_error_iff.mp h
  · exact takeTokens_fails hfail
  · cases hdone

/-- Where there is room, a token that is pushed back comes first. -/
theorem pushBack_stream {p : Parser} (t : Token)
    (hroom : p.ahead ≠ [] ∨ p.lexer.pushed = none) :
    ∃ q, pushBack t p = (.ok (), q) ∧ q.stream = Stream'.cons (.ok t) p.stream := by
  cases hahead : p.ahead with
  | cons u us =>
    refine ⟨{ p with ahead := [t] ++ p.ahead }, ?_, stream_append p [t]⟩
    rw [pushBack, hahead]
    rfl
  | nil =>
    have hp : p.lexer.pushed = none := hroom.resolve_left (not_not_intro hahead)
    refine ⟨{ p with lexer := { p.lexer with pushed := some t } }, ?_, ?_⟩
    · simp [pushBack, hahead, onLexer, Action.onPart, Lexer.pushBack, hp]
    · simp only [stream, hahead, hp]
      rfl

/-- Where there is no room, nothing changes. -/
theorem pushBack_refused {p : Parser} {held : Token} (t : Token) (hahead : p.ahead = [])
    (hheld : p.lexer.pushed = some held) :
    pushBack t p = (.error (Error.raised (.pushbackTaken t held)), p) := by
  rw [pushBack, hahead]
  show onLexer (Lexer.pushBack t) p = _
  simp only [onLexer, Action.onPart, Lexer.pushBack, hheld]

/-- What can be asked of the tokens of a parser. -/
inductive Request
  | next
  | pushBack (t : Token)
  | peek (count : Nat)

/-- The parser answers the requests, one after the other, by its stream. -/
inductive Serves : Parser → List Request → Prop
  | done (p : Parser) : Serves p []
  /-- The first token of the stream is given and taken off. -/
  | next {p q : Parser} {requests : List Request} {t : Token} (hrun : nextToken p = (.ok t, q))
      (htaken : p.stream = Stream'.cons (.ok t) q.stream) (rest : Serves q requests) :
      Serves p (.next :: requests)
  /-- The first tokens of the stream are given, and the stream stays as it is. -/
  | peek {p q : Parser} {requests : List Request} {count : Nat} {ts : List Token}
      (hrun : peek count p = (.ok ts, q)) (hfirst : p.stream.take count = ts.map .ok)
      (hkept : q.stream = p.stream) (rest : Serves q requests) :
      Serves p (.peek count :: requests)
  /-- There is room, and the token comes first. -/
  | pushBack {p q : Parser} {requests : List Request} {t : Token}
      (hroom : p.ahead ≠ [] ∨ p.lexer.pushed = none) (hrun : pushBack t p = (.ok (), q))
      (hput : q.stream = Stream'.cons (.ok t) p.stream) (rest : Serves q requests) :
      Serves p (.pushBack t :: requests)
  /-- There is no room, and nothing at all changes. -/
  | refused {p : Parser} {requests : List Request} {t held : Token} {e : Error}
      (hahead : p.ahead = []) (hheld : p.lexer.pushed = some held)
      (hrun : pushBack t p = (.error e, p))
      (herror : t.Plain → held.Plain → e = .pushbackTaken t held) (rest : Serves p requests) :
      Serves p (.pushBack t :: requests)
  /-- The first entry of the stream is an error of the scanner. -/
  | fails {p q : Parser} {requests : List Request} {e : Error} (hscanning : e.IsScanning)
      (hrun : nextToken p = (.error e, q)) (htaken : p.stream = Stream'.cons (.error e) q.stream)
      (rest : Serves q requests) : Serves p (.next :: requests)
  /-- One of the first entries of the stream is an error of the scanner, and the tokens before it
  are lost. -/
  | loses {p q : Parser} {requests : List Request} {count : Nat} {e : Error} {ts : List Token}
      (hscanning : e.IsScanning) (hrun : peek count p = (.error e, q))
      (hshort : ts.length < count)
      (hlost : p.stream = ts.map .ok ++ₛ Stream'.cons (.error e) q.stream)
      (rest : Serves q requests) : Serves p (.peek count :: requests)

theorem serves (p : Parser) (requests : List Request) : Serves p requests := by
  induction requests generalizing p with
  | nil => exact .done p
  | cons request requests ih =>
    cases request with
    | next =>
      cases hrun : nextToken p with
      | mk r q =>
        have hstream := nextToken_stream hrun
        cases r with
        | ok t => exact .next hrun hstream (ih q)
        | error e => exact .fails (nextToken_error_scanning hrun) hrun hstream (ih q)
    | peek count =>
      cases hrun : peek count p with
      | mk r q =>
        cases r with
        | ok ts =>
          obtain ⟨hfirst, hkept⟩ := peek_stream hrun
          exact .peek hrun hfirst hkept (ih q)
        | error e =>
          obtain ⟨hscanning, ts, hshort, hlost⟩ := peek_fails hrun
          exact .loses hscanning hrun hshort hlost (ih q)
    | pushBack t =>
      by_cases hroom : p.ahead ≠ [] ∨ p.lexer.pushed = none
      · obtain ⟨q, hrun, hput⟩ := pushBack_stream t hroom
        exact .pushBack hroom hrun hput (ih q)
      · obtain ⟨hahead, hpushed⟩ := not_or.mp hroom
        obtain ⟨held, hheld⟩ := Option.ne_none_iff_exists'.mp hpushed
        have hahead := not_not.mp hahead
        exact .refused hahead hheld (pushBack_refused t hahead hheld)
          Error.raised_pushbackTaken (ih p)

end Parser

/-- The tokens of a parser are a stream with push-front. For a new parser that is the stream of the
source: its tokens and what comes beyond them. From there on every request, in any sequence of them,
is answered by the stream that there is then. -/
theorem buffer_refines_stream (source : String) (keepTrivia : Bool) (terminator : Kind)
    (registry : Registry) (requests : List Parser.Request) :
    (Parser.ofLexer (Lexer.ofSource source keepTrivia) terminator registry).stream =
        (Lexer.ofSource source keepTrivia).tokens.1.map .ok ++ₛ
          (Lexer.ofSource source keepTrivia).beyond ∧
      (Parser.ofLexer (Lexer.ofSource source keepTrivia) terminator registry).Serves requests :=
  ⟨Lexer.scans_eq_tokens rfl, Parser.serves _ requests⟩

/-- The tokens that are looked at come from all three places, and the last two are end tokens. -/
example (plus : Token) (hplus : plus = ⟨.plus, .text "+", ⟨1, 2⟩, false⟩) :
    ((do Parser.pushBack plus; let _ ← Parser.peek 3; Parser.pushBack plus; Parser.peek 5)
        (Parser.ofLexer (Lexer.ofSource "x" false) .eof [])).1 =
      .ok [plus, plus, ⟨.identifier, .text "x", ⟨1, 1⟩, true⟩, ⟨.eof, .absent, ⟨1, 2⟩, false⟩,
        ⟨.eof, .absent, ⟨1, 2⟩, false⟩] := by
  subst hplus
  cbv

end LoopLanguage
