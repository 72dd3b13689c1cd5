import LoopLanguage.Proofs.Upkeep

/-!
Which values variables can have. In a run of a parsed program all of them are numbers from zero up
that can be written: literals and numbers that are read are so, arguments and results are copied, and
an assignment writes its value, so that it fails if that got one digit too many. Then the value has
already been stored, and this is the only way in which a variable can hold the least number that
cannot be written. The invariant is `Point.Within`, which every step but that one keeps.
-/

namespace LoopLanguage

/-- A number from zero up that can be written. -/
def Numeral.InRange (value : Int) : Prop := 0 ≤ value ∧ value < Text.digitLimit

theorem Numeral.inRange_zero : InRange 0 := by
  have h := short_zero
  unfold Short at h
  constructor <;> omega

theorem Numeral.InRange.of_short {value : Int} (hpos : 0 ≤ value) (h : Short value) :
    InRange value := by
  unfold Short at h
  constructor <;> omega

namespace Machine

theorem regular_upkeep :
    Upkeep Numeral.InRange Statement.Regular Statement.RegularDefinition where
  zero := Numeral.inRange_zero
  read h := .of_short (Int.natCast_nonneg _) (Numeral.short_of_read h)
  assign h := .of_short h.2.1 h.2.2
  loop h _ hs := h.2.mem hs
  define h := ⟨h.1, h.2.1, h.2.2.2⟩
  body h _ hs := h.2.2.mem hs

section Points

variable {tracing : Tracing} {waiting : List Task} {machine : Machine}

/-- An increment keeps the values in range, unless the operand holds the greatest number that can be
written: then the next one is stored, and the statement fails. -/
theorem increment_step {target operand : Atom}
    (hregular : (Statement.increment target operand).Regular)
    (hwithin : machine.Within Numeral.InRange Statement.RegularDefinition) :
    (∃ r after, step tracing (.perform (.increment target operand)) waiting machine = (r, after) ∧
        after.Within Numeral.InRange Statement.RegularDefinition ∧
        ∀ agenda, r = .ok agenda → agenda = waiting) ∨
      machine.store.get? operand = some ((Text.digitLimit : Int) - 1) ∧
        step tracing (.perform (.increment target operand)) waiting machine =
          (.error .tooManyDigitsWritten,
            { machine with store := machine.store.put target Text.digitLimit }) := by
  have hstep : step tracing (.perform (.increment target operand)) waiting =
      operandValue target operand >>= fun value => do
        assign tracing target (value + 1)
        return waiting := by
    rw [step, execute, Statement.checkReady_of_regular hregular, bind_assoc, bind_assoc]
    · rfl
    all_goals simp
  have hkeeps : Keeps Numeral.InRange Statement.RegularDefinition (operandValue target operand)
      Numeral.InRange :=
    keeps_iff.mpr ((regular_upkeep.alignment tracing).comparison.operandValue_couples
      ⟨rfl, trivial⟩ ⟨rfl, trivial⟩)
  obtain ⟨hkept, _⟩ := hkeeps machine hwithin
  have hreads := @operandValue_ensures machine target operand hregular.1 hregular.2
  rw [hstep]
  cases hvalue : operandValue target operand machine with
  | mk r next =>
    rw [hvalue] at hkept
    cases r with
    | error e =>
      rw [Action.bind_error hvalue]
      exact .inl ⟨_, _, rfl, hkept, nofun⟩
    | ok value =>
      simp only [Action.Ensures, hvalue] at hreads
      obtain ⟨rfl, hget⟩ := hreads
      obtain ⟨hpos, hlt⟩ := hwithin.store operand value hget
      rw [Action.bind_ok hvalue]
      by_cases hsum : Numeral.Short (value + 1)
      · have hassign : Keeps Numeral.InRange Statement.RegularDefinition
            (do assign tracing target (value + 1); return waiting) fun agenda => agenda = waiting :=
          keeps_return ((regular_upkeep.alignment tracing).assign trivial
            (.of_short (by omega) hsum)) rfl
        obtain ⟨hafter, hagenda⟩ := hassign next hwithin
        exact .inl ⟨_, _, rfl, hafter, hagenda⟩
      · have hlast : value + 1 = Text.digitLimit := by
          unfold Numeral.Short at hsum
          omega
        rw [Action.bind_error (assign_of_not_short hregular.1 hsum), hlast]
        refine .inr ⟨?_, rfl⟩
        rw [hget, ← hlast]
        simp

/-- A step keeps the values in range, whether it fails or not; the one exception is an increment
that goes too far. -/
theorem step_inRange {task : Task} {after : Machine} {r : Except Error (List Task)}
    (hp : Point.Within Numeral.InRange Statement.Regular Statement.RegularDefinition
      ⟨machine, task :: waiting⟩)
    (h : step tracing task waiting machine = (r, after)) :
    (after.Within Numeral.InRange Statement.RegularDefinition ∧
        ∀ agenda, r = .ok agenda → ∀ task ∈ agenda, task.Within Numeral.InRange Statement.Regular) ∨
      ∃ target operand, task = .perform (.increment target operand) ∧
        r = .error .tooManyDigitsWritten ∧
        machine.store.get? operand = some ((Text.digitLimit : Int) - 1) ∧
        after = { machine with store := machine.store.put target Text.digitLimit } := by
  obtain ⟨htask, hwaiting⟩ := List.forall_mem_cons.mp hp.agenda
  by_cases hplain : ∃ target operand, task = .perform (.increment target operand)
  · obtain ⟨target, operand, rfl⟩ := hplain
    rcases @increment_step tracing waiting machine target operand htask hp.machine with
      ⟨r', after', hstep, hafter, hagenda⟩ | ⟨hget, hstep⟩
    · cases h.symm.trans hstep
      left
      refine ⟨hafter, ?_⟩
      intro agenda hr
      rwa [hagenda agenda hr]
    · cases h.symm.trans hstep
      exact .inr ⟨target, operand, rfl, rfl, hget, rfl⟩
  · have hother : ∀ target operand, task ≠ .perform (.increment target operand) :=
      fun target operand heq => hplain ⟨target, operand, heq⟩
    have hkept := @Upkeep.step_keeps tracing _ _ _ waiting regular_upkeep task htask hwaiting hother
      machine hp.machine
    rw [h] at hkept
    exact .inl hkept

theorem trail_inRange {p q : Point}
    (hp : p.Within Numeral.InRange Statement.Regular Statement.RegularDefinition)
    (h : Trail tracing p q) :
    q.Within Numeral.InRange Statement.Regular Statement.RegularDefinition := by
  induction h with
  | refl => exact hp
  | tail _ hmove ih =>
    cases hmove with
    | step hstep =>
      rcases step_inRange ih hstep with ⟨hafter, hagenda⟩ | ⟨_, _, _, hr, _⟩
      · exact ⟨hafter, hagenda _ rfl⟩
      · cases hr

/-- After a step that fails, the only value out of range can be the one that an increment has just
stored. -/
theorem breaks_inRange {p : Point}
    (hp : p.Within Numeral.InRange Statement.Regular Statement.RegularDefinition) {e : Error}
    {final : Machine}
    (h : Breaks tracing p e final) {name : Atom} {value : Int}
    (hvalue : final.store.get? name = some value) :
    Numeral.InRange value ∨ value = Text.digitLimit ∧ e = .tooManyDigitsWritten ∧
      ∃ target operand waiting, p.agenda = .perform (.increment target operand) :: waiting ∧
        name.key = target.key ∧ p.machine.store.get? operand = some (value - 1) := by
  cases h with
  | step hstep =>
    rcases step_inRange hp hstep with ⟨hafter, _⟩ | ⟨target, operand, rfl, he, hget, rfl⟩
    · exact .inl (hafter.store name value hvalue)
    · cases he
      dsimp only at hvalue
      rw [Store.get?_put] at hvalue
      split at hvalue
      · next hkey =>
        cases hvalue
        exact .inr ⟨rfl, rfl, target, operand, _, rfl, hkey.symm, hget⟩
      · exact .inl (hp.machine.store name value hvalue)

end Points

end Machine

/-- At every point of a run of a parsed program, every variable of every live scope holds a number
from zero up that can be written. The same holds after a failure, except that an increment that
fails because its value is the least number that cannot be written has stored it. The points are those
of the run: it takes them to its end, or to the step with whose error it ends; it has no end only if
calls go in circles, which programs that were parsed one after the other do not. Programs that were
there before have to come from sources, too. -/
theorem parsed_values_in_range {before registry : Registry} {body : List Statement}
    (hbefore : ∀ d ∈ before, Statement.RegularDefinition d)
    (h : ParsedAfter before body registry) (tracing : Tracing) (input : String) :
    (∃ r after, Machine.run tracing body (Machine.start registry input) = (r, after) ∧
      ((∃ value, r = .ok value ∧ Machine.Trail tracing
          ⟨Machine.start registry input, body.map .perform⟩ ⟨after, []⟩) ∨
        (∃ e, r = .error e ∧ Machine.Stumbles tracing
          ⟨Machine.start registry input, body.map .perform⟩ [] e after) ∨
        r = .error .exhausted ∧ ¬ before.Layered)) ∧
    ∀ p, Machine.Trail tracing ⟨Machine.start registry input, body.map .perform⟩ p →
      (∀ store ∈ p.scopes, ∀ name value, store.get? name = some value →
        0 ≤ value ∧ value < Text.digitLimit) ∧
      ∀ e final, Machine.Breaks tracing p e final →
        (∀ store ∈ Machine.callers p.agenda, ∀ name value, store.get? name = some value →
          0 ≤ value ∧ value < Text.digitLimit) ∧
        ∀ name value, final.store.get? name = some value →
          0 ≤ value ∧ value ≤ Text.digitLimit ∧
          (value = Text.digitLimit → e = .tooManyDigitsWritten ∧
            ∃ target operand waiting,
              p.agenda = .perform (.increment target operand) :: waiting ∧
              name.key = target.key ∧ p.machine.store.get? operand = some (value - 1)) := by
  have hprograms := Statement.enrollAll_regular body h.regular hbefore h.enrolls
  have hstart : Machine.Point.Within Numeral.InRange Statement.Regular Statement.RegularDefinition
      ⟨Machine.start registry input, body.map .perform⟩ :=
    ⟨⟨Store.holds_nil, hprograms⟩, Machine.performs_within (Statement.regularAll_iff.mp h.regular)⟩
  constructor
  · refine ⟨_, _, rfl, ?_⟩
    by_cases hsettled : Settled (Machine.run tracing body (Machine.start registry input)).1
    · rcases Machine.run_trail rfl hsettled with hend | hbreak
      · exact .inl hend
      · exact .inr (.inl hbreak)
    · refine .inr (.inr ⟨not_not.mp hsettled, ?_⟩)
      intro hlayered
      obtain ⟨hlayered, hlinked⟩ := Statement.enrollAll_linked body hlayered h.enrolls
      exact hsettled (@Machine.run_steady tracing _ body hlayered hlinked
        (Machine.start registry input) rfl).2.1
  · intro p htrail
    have hp := Machine.trail_inRange hstart htrail
    refine ⟨hp.scopes, ?_⟩
    intro e final hbreak
    refine ⟨Machine.callers_within hp.agenda, ?_⟩
    intro name value hvalue
    rcases Machine.breaks_inRange hp hbreak hvalue with ⟨hpos, hlt⟩ | ⟨hlast, he, hwhere⟩
    · exact ⟨hpos, by omega, fun hlast => absurd hlast (by omega)⟩
    · exact ⟨by omega, by omega, fun _ => ⟨he, hwhere⟩⟩

/-- The program is called over the registry of an earlier source. -/
theorem parsed_values_in_range_shared :
    ∃ before body registry,
      parseByGrammar "PROGRAM P(a) DO\nX0 := a + 1\nEND" [] =
        (.ok [.define (.text "P") [.text "a"] [.increment (.text "X0") (.text "a")]], before) ∧
      parseByDescent "INPUT x\nx := P(x)" before = (.ok body, registry) ∧
      (Machine.run ⟨0, false⟩ body (Machine.start registry "7\n")).2.store.get? (.text "x") =
        some 8 ∧
      ∀ p, Machine.Trail ⟨0, false⟩ ⟨Machine.start registry "7\n", body.map .perform⟩ p →
        ∀ store ∈ p.scopes, ∀ name value, store.get? name = some value →
          0 ≤ value ∧ value < Text.digitLimit := by
  have hfirst : parseByGrammar "PROGRAM P(a) DO\nX0 := a + 1\nEND" [] =
      (.ok [.define (.text "P") [.text "a"] [.increment (.text "X0") (.text "a")]],
        [⟨.text "P", [.text "a"], [.increment (.text "X0") (.text "a")]⟩]) := by
    cbv
  have hsecond : parseByDescent "INPUT x\nx := P(x)"
      [⟨.text "P", [.text "a"], [.increment (.text "X0") (.text "a")]⟩] =
      (.ok [.input [⟨.identifier, .text "x", ⟨1, 7⟩, false⟩],
          .call (.text "x") (.text "P") [.text "x"]],
        [⟨.text "P", [.text "a"], [.increment (.text "X0") (.text "a")]⟩]) := by
    cbv
  have hregular := Statement.enrollAll_regular _ (ParsedAfter.regular ⟨_, .inr hfirst⟩) (by simp)
    (ParsedAfter.enrolls ⟨_, .inr hfirst⟩)
  refine ⟨_, _, _, hfirst, hsecond, ?_, ?_⟩
  · decide +kernel
  · intro p htrail
    exact ((parsed_values_in_range hregular ⟨_, .inl hsecond⟩ ⟨0, false⟩ "7\n").2 p htrail).1

end LoopLanguage
