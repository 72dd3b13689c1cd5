import Mathlib
import LoopLanguage.Execution.Run

/-!
Two runs side by side. Most of what is said about runs compares two of them: at two levels of
tracing, with two depths, from two scopes, under two sets of names, with and without places, with
and without more input; and what a run keeps is said of a run beside itself. A `Bond` is what holds
between the two machines, and `Bond.Couples` says of two actions that they keep the bond and come to
results that go together. How actions are put together is dealt with here, once for all bonds.
-/

namespace LoopLanguage

/-! ## Results -/

/-- The allotted steps sufficed, for a value or for an error. -/
def Settled {α : Type} (r : Except Error α) : Prop := r ≠ .error .exhausted

section Settled

variable {α β : Type}

@[simp] theorem settled_ok (a : α) : Settled (.ok a) := by simp [Settled]

@[simp] theorem settled_error {e : Error} :
    Settled (.error e : Except Error α) ↔ e ≠ .exhausted := by simp [Settled]

theorem Settled.bind {r : Except Error α} {f : α → Except Error β} (hr : Settled r)
    (hf : ∀ a, Settled (f a)) : Settled (r >>= f) := by
  cases r with
  | ok a => exact hf a
  | error e => exact settled_error.mpr (settled_error.mp hr)

theorem settled_mapM {f : α → Except Error β} (hf : ∀ a, Settled (f a)) (xs : List α) :
    Settled (xs.mapM f) := by
  induction xs with
  | nil => exact settled_ok []
  | cons a xs ih =>
    rw [List.mapM_cons]
    exact (hf a).bind fun _ => ih.bind fun _ => settled_ok _

theorem Atom.shown_settled (a : Atom) : Settled a.shown := by
  unfold Atom.shown
  split <;> simp

theorem Atom.checkKey_settled (a : Atom) : Settled a.checkKey := by
  unfold Atom.checkKey
  split <;> simp

theorem Atom.variableSource_settled (a : Atom) : Settled a.variableSource := by
  cases a <;> simp [Atom.variableSource]

theorem Token.shown_settled (t : Token) : Settled t.shown := by
  unfold Token.shown
  split
  · split <;> simp
  · exact (Atom.shown_settled _).bind fun _ => settled_ok _

/-- What prevents an error from being shown is not that steps ran out. -/
theorem settled_raised {e : Error} (he : e ≠ .exhausted) :
    Settled (.error e.raised : Except Error α) := by
  have hshow : Settled e.showAll := by
    cases e with
    | pushbackTaken token held =>
      exact token.shown_settled.bind fun _ => held.shown_settled.bind fun _ => settled_ok _
    | notNumberKind t | notNumberText t | unexpectedToken _ _ t =>
      exact t.shown_settled.bind fun _ => settled_ok _
    | notYetDefined a | callArity a | alreadyDefined a | programNotDefined a | argumentCount a
    | undefinedVariable a | undefinedCount a | inputEnded a | inputNotNumber a =>
      exact a.shown_settled.bind fun _ => settled_ok _
    | unknownNodeType type => exact (Atom.ofJson type).shown_settled.bind fun _ => settled_ok _
    | _ => exact settled_ok _
  unfold Error.raised
  split
  · exact settled_error.mpr he
  · next obstacle hobstacle => exact settled_error.mpr (settled_error.mp (hobstacle ▸ hshow))

theorem Numeral.write_settled (n : Int) : Settled (Numeral.write n) := by
  unfold Numeral.write
  split <;> simp

theorem Numeral.read_settled (digits : List Char) : Settled (Numeral.read digits) := by
  unfold Numeral.read
  split <;> simp

theorem Token.value_settled (t : Token) : Settled t.value := by
  unfold Token.value
  split
  · exact settled_raised (by simp)
  · split
    · split
      · exact Numeral.read_settled _
      · simp
    · simp
    · simp

theorem Statement.checkReady_settled (s : Statement) : Settled s.checkReady := by
  unfold Statement.checkReady
  split
  · split <;> simp
  · simp

theorem Registry.lookup_settled (registry : Registry) (name : Atom) :
    Settled (registry.lookup name) := by
  refine name.checkKey_settled.bind fun _ => ?_
  split
  · simp
  · exact settled_raised (by simp)

namespace Store

theorem write_settled (store : Store) (name : Atom) (value : Int) :
    Settled (store.write name value) :=
  name.checkKey_settled.bind fun _ => settled_ok _

theorem bind_settled (store : Store) (program : Atom) (inner : Store) (params args : List Atom) :
    Settled (store.bind program inner params args) := by
  induction params generalizing inner args with
  | nil => exact settled_ok inner
  | cons param params ih =>
    cases args with
    | nil => exact settled_ok inner
    | cons arg args =>
      refine arg.checkKey_settled.bind fun _ => ?_
      split
      · exact arg.shown_settled.bind fun _ => program.shown_settled.bind fun _ => by simp
      · exact (write_settled inner param _).bind fun inner => ih inner args

theorem enter_settled (store : Store) (registry : Registry) (program : Atom) (args : List Atom) :
    Settled (store.enter registry program args) := by
  refine (registry.lookup_settled program).bind fun definition => ?_
  split
  · exact settled_raised (by simp)
  · exact (bind_settled _ _ _ _ _).bind fun _ => settled_ok _

end Store

namespace Output

theorem itemText_settled (store : Store) (t : Token) : Settled (itemText store t) := by
  unfold itemText
  split
  · exact t.value_settled.bind fun _ => Numeral.write_settled _
  · refine t.text.checkKey_settled.bind fun _ => ?_
    split
    · exact Numeral.write_settled _
    · exact t.text.shown_settled.bind fun _ => settled_ok _

theorem parts_settled (store : Store) (afterString : Bool) (items : List Token) :
    Settled (parts store afterString items) := by
  induction items generalizing afterString with
  | nil => exact settled_ok []
  | cons t items ih =>
    unfold parts
    split
    · exact (ih true).bind fun _ => settled_ok _
    · exact (itemText_settled store t).bind fun _ => (ih false).bind fun _ => settled_ok _

theorem join_settled (atoms : List Atom) : Settled (join atoms) := by
  induction atoms with
  | nil => exact settled_ok ""
  | cons a rest ih =>
    cases a with
    | text s => exact ih.bind fun _ => settled_ok _
    | absent | other => simp [join]

theorem render_settled (store : Store) (items : List Token) : Settled (render store items) :=
  (parts_settled store true items).bind join_settled

end Output

theorem Statement.increment_source_settled (target operand : Atom) :
    Settled (Statement.increment target operand).source := by
  unfold Statement.source
  exact (Statement.checkReady_settled _).bind fun _ => target.variableSource_settled.bind fun _ =>
    operand.variableSource_settled.bind fun _ => settled_ok _

end Settled

/-- Both give a value, and the values are related, or both fail, and the errors are related. -/
inductive Paired {α β : Type} (E : Error → Error → Prop) (V : α → β → Prop) :
    Except Error α → Except Error β → Prop
  | ok {a : α} {b : β} (h : V a b) : Paired E V (.ok a) (.ok b)
  | error {e e' : Error} (h : E e e') : Paired E V (.error e) (.error e')

/-- One and the same value, which has the property. -/
def Same {α : Type} (P : α → Prop) (a b : α) : Prop := a = b ∧ P a

namespace Paired

variable {α β γ δ : Type} {E : Error → Error → Prop} {V : α → β → Prop} {W : γ → δ → Prop}
  {r : Except Error α} {r' : Except Error β}

theorem bind {f : α → Except Error γ} {g : β → Except Error δ} (h : Paired E V r r')
    (hf : ∀ a b, V a b → Paired E W (f a) (g b)) : Paired E W (r >>= f) (r' >>= g) := by
  cases h with
  | ok h => exact hf _ _ h
  | error h => exact .error h

theorem imp {U : α → β → Prop} (h : Paired E V r r') (hV : ∀ a b, V a b → U a b) :
    Paired E U r r' := by
  cases h with
  | ok h => exact .ok (hV _ _ h)
  | error h => exact .error h

theorem forget {P : α → Prop} {r r' : Except Error α} (h : Paired E (Same P) r r') :
    Paired E Eq r r' :=
  h.imp fun _ _ h => h.1

theorem eq {r r' : Except Error α} (h : Paired Eq Eq r r') : r = r' := by
  cases h with
  | ok h => rw [h]
  | error h => rw [h]

/-- A result goes with itself if its error does. -/
theorem refl {r : Except Error α} (hE : ∀ e, r = .error e → E e e) :
    Paired E (Same fun a => r = .ok a) r r := by
  cases r with
  | ok a => exact .ok ⟨rfl, rfl⟩
  | error e => exact .error (hE e rfl)

theorem of_settled {r : Except Error α} (hE : ∀ e, e ≠ .exhausted → E e e) (h : Settled r) :
    Paired E (Same fun a => r = .ok a) r r := by
  apply refl
  rintro e rfl
  exact hE e (settled_error.mp h)

end Paired

/-! ## Actions -/

/-- Look at the machine and leave it as it is. -/
def Machine.ask {α : Type} (q : Machine → Except Error α) : Action Machine α := fun m => (q m, m)

theorem Machine.iterate_succ (act : Action Machine Unit) (count : Nat) :
    Machine.iterate act (count + 1) = act >>= fun _ => Machine.iterate act count := by
  funext machine
  cases h : act machine with
  | mk r after =>
    cases r with
    | ok a => simp only [Machine.iterate, h, Action.bind_ok h]
    | error e => simp only [Machine.iterate, h, Action.bind_error h]

/-- What holds between two machines that run side by side. -/
structure Bond where
  /-- While both go on. -/
  Between : Machine → Machine → Prop
  /-- After both have failed. -/
  Broken : Machine → Machine → Prop
  /-- Between the errors with which both have failed. -/
  Errors : Error → Error → Prop
  /-- After only the first one has failed, with this error, while the second one goes on. -/
  Alone : Error → Machine → Machine → Prop := fun _ _ _ => False
  broken : ∀ {m m' : Machine}, Between m m' → Broken m m'

namespace Bond

variable {α β γ δ : Type} {V : α → β → Prop} {W : γ → δ → Prop}

/-- What two actions come to that keep the bond, if they give values that are related by `V`. -/
inductive Ends (B : Bond) (V : α → β → Prop) :
    Except Error α × Machine → Except Error β × Machine → Prop
  | ok {a : α} {b : β} {m m' : Machine} (hvalue : V a b) (h : B.Between m m') :
      Ends B V (.ok a, m) (.ok b, m')
  | error {e e' : Error} {m m' : Machine} (he : B.Errors e e') (h : B.Broken m m') :
      Ends B V (.error e, m) (.error e', m')
  | alone {e : Error} {r : Except Error β} {m m' : Machine} (h : B.Alone e m m')
      (hvalue : ∀ b, r = .ok b → ∃ a, V a b) : Ends B V (.error e, m) (r, m')

/-- Neither run ever goes on alone. -/
def Together (B : Bond) : Prop := ∀ e m m', ¬ B.Alone e m m'

theorem Ends.paired {B : Bond} (hB : B.Together) {x : Except Error α × Machine}
    {y : Except Error β × Machine} (h : B.Ends V x y) :
    Paired B.Errors V x.1 y.1 ∧ B.Broken x.2 y.2 := by
  cases h with
  | ok hvalue hm => exact ⟨.ok hvalue, B.broken hm⟩
  | error he hm => exact ⟨.error he, hm⟩
  | alone hm _ => exact absurd hm (hB _ _ _)

/-- From machines between which the bond holds, the actions come to what goes together. Once the first
run has failed alone, the second action is free to go on. -/
structure Couples (B : Bond) (V : α → β → Prop) (act : Action Machine α)
    (other : Action Machine β) : Prop where
  ends : ∀ {m m' : Machine}, B.Between m m' → B.Ends V (act m) (other m')
  onward : ∀ {e : Error} {m m' : Machine}, B.Alone e m m' →
    B.Alone e m (other m').2 ∧ ∀ b, (other m').1 = .ok b → ∃ a, V a b

namespace Couples

variable {B D : Bond} {act : Action Machine α} {other : Action Machine β}

theorem of_ends (hB : B.Together) (h : ∀ m m', B.Between m m' → B.Ends V (act m) (other m')) :
    B.Couples V act other :=
  ⟨fun hm => h _ _ hm, fun hm => absurd hm (hB _ _ _)⟩

theorem imp {U : α → β → Prop} (h : B.Couples V act other) (hV : ∀ a b, V a b → U a b) :
    B.Couples U act other := by
  constructor
  · intro m m' hm
    have hends := h.ends hm
    generalize act m = x at hends
    generalize other m' = y at hends
    cases hends with
    | ok hvalue h => exact .ok (hV _ _ hvalue) h
    | error he h => exact .error he h
    | alone h hvalue =>
      apply Ends.alone h
      intro b hb
      obtain ⟨a, ha⟩ := hvalue b hb
      exact ⟨a, hV a b ha⟩
  · intro e m m' hm
    obtain ⟨halone, hvalue⟩ := h.onward hm
    refine ⟨halone, ?_⟩
    intro b hb
    obtain ⟨a, ha⟩ := hvalue b hb
    exact ⟨a, hV a b ha⟩

theorem forget {P : α → Prop} {act other : Action Machine α} (h : B.Couples (Same P) act other) :
    B.Couples Eq act other :=
  h.imp fun _ _ h => h.1

theorem ask {q : Machine → Except Error α} {q' : Machine → Except Error β}
    (hq : ∀ m m', B.Between m m' → Paired B.Errors V (q m) (q' m'))
    (hvalue : ∀ e m m', B.Alone e m m' → ∀ b, q' m' = .ok b → ∃ a, V a b) :
    B.Couples V (Machine.ask q) (Machine.ask q') := by
  constructor
  · intro m m' hm
    have hpaired := hq m m' hm
    show B.Ends V (q m, m) (q' m', m')
    generalize q m = r at hpaired
    generalize q' m' = r' at hpaired
    cases hpaired with
    | ok h => exact .ok h hm
    | error he => exact .error he (B.broken hm)
  · intro e m m' hm
    exact ⟨hm, hvalue e m m' hm⟩

theorem ask_together (hB : B.Together) {q : Machine → Except Error α}
    {q' : Machine → Except Error β}
    (hq : ∀ m m', B.Between m m' → Paired B.Errors V (q m) (q' m')) :
    B.Couples V (Machine.ask q) (Machine.ask q') :=
  ask hq fun e m m' h => absurd h (hB e m m')

theorem ofExcept {r : Except Error α} {r' : Except Error β} (h : Paired B.Errors V r r') :
    B.Couples V (Action.ofExcept r) (Action.ofExcept r') := by
  cases h with
  | ok h =>
    constructor
    · exact fun hm => .ok h hm
    · intro e m m' hm
      refine ⟨hm, ?_⟩
      rintro _ ⟨⟩
      exact ⟨_, h⟩
  | error he =>
    constructor
    · exact fun hm => .error he (B.broken hm)
    · intro e m m' hm
      refine ⟨hm, ?_⟩
      rintro _ ⟨⟩

theorem pure {a : α} {b : β} (h : V a b) : B.Couples V (pure a) (pure b) := ofExcept (.ok h)

theorem fail {e e' : Error} (h : B.Errors e e') :
    B.Couples V (Action.fail e) (Action.fail e') :=
  ofExcept (.error h)

/-- A change that keeps the bond. -/
theorem modify {f g : Machine → Machine} (h : ∀ m m', B.Between m m' → B.Between (f m) (g m'))
    (halone : ∀ e m m', B.Alone e m m' → B.Alone e m (g m')) :
    B.Couples Eq (Action.modify f) (Action.modify g) := by
  constructor
  · exact fun hm => .ok rfl (h _ _ hm)
  · exact fun hm => ⟨halone _ _ _ hm, fun b _ => ⟨b, rfl⟩⟩

theorem modify_together (hB : B.Together) {f g : Machine → Machine}
    (h : ∀ m m', B.Between m m' → B.Between (f m) (g m')) :
    B.Couples Eq (Action.modify f) (Action.modify g) :=
  modify h fun e m m' h => absurd h (hB e m m')

theorem bind {f : α → Action Machine γ} {g : β → Action Machine δ} (h : B.Couples V act other)
    (hf : ∀ a b, V a b → B.Couples W (f a) (g b)) : B.Couples W (act >>= f) (other >>= g) := by
  have hgoes : ∀ {e : Error} {m n : Machine} {b : β}, B.Alone e m n → (∃ a, V a b) →
      B.Alone e m (g b n).2 ∧ ∀ c, (g b n).1 = .ok c → ∃ a, W a c := by
    rintro e m n b hm ⟨a, hvalue⟩
    exact (hf a b hvalue).onward hm
  constructor
  · intro m m' hm
    have hends := h.ends hm
    cases hrun : act m with
    | mk r n =>
      cases hrun' : other m' with
      | mk r' n' =>
        rw [hrun, hrun'] at hends
        cases hends with
        | ok hvalue hn =>
          rw [Action.bind_ok hrun, Action.bind_ok hrun']
          exact (hf _ _ hvalue).ends hn
        | error he hn =>
          rw [Action.bind_error hrun, Action.bind_error hrun']
          exact .error he hn
        | alone hn hvalue =>
          rw [Action.bind_error hrun]
          cases r' with
          | ok b =>
            obtain ⟨halone, hlast⟩ := hgoes hn (hvalue b rfl)
            rw [Action.bind_ok hrun']
            exact .alone halone hlast
          | error e' =>
            rw [Action.bind_error hrun']
            apply Ends.alone hn
            rintro _ ⟨⟩
  · intro e m m' hm
    obtain ⟨hn, hvalue⟩ := h.onward hm
    cases hrun' : other m' with
    | mk r' n' =>
      rw [hrun'] at hn hvalue
      cases r' with
      | ok b =>
        rw [Action.bind_ok hrun']
        exact hgoes hn (hvalue b rfl)
      | error e' =>
        rw [Action.bind_error hrun']
        refine ⟨hn, ?_⟩
        rintro _ ⟨⟩

theorem iterate {act other : Action Machine Unit} (h : B.Couples Eq act other) (count : Nat) :
    B.Couples Eq (Machine.iterate act count) (Machine.iterate other count) := by
  induction count with
  | zero => exact pure rfl
  | succ count ih =>
    rw [Machine.iterate_succ, Machine.iterate_succ]
    exact h.bind fun _ _ _ => ih

end Couples

/-- The bond `D` between machines in the scopes of two calls, beside the bond `B` between their
callers. -/
structure Nests (B D : Bond) (store store' : Store) : Prop where
  errors : ∀ {e e' : Error}, D.Errors e e' → B.Errors e e'
  enter : ∀ {m m' : Machine}, B.Between m m' →
    D.Between { m with store } { m' with store := store' }
  leave : ∀ {m m' n n' : Machine}, B.Between m m' → D.Between n n' →
    B.Between { n with store := m.store } { n' with store := m'.store }
  fail : ∀ {m m' n n' : Machine}, B.Between m m' → D.Broken n n' →
    B.Broken { n with store := m.store } { n' with store := m'.store }
  part : ∀ {e : Error} {m m' n n' : Machine}, B.Between m m' → D.Alone e n n' →
    B.Alone e { n with store := m.store } { n' with store := m'.store }
  enterAlone : ∀ {e : Error} {m m' : Machine}, B.Alone e m m' →
    D.Alone e m { m' with store := store' }
  leaveAlone : ∀ {e : Error} {m m' n' : Machine}, B.Alone e m m' → D.Alone e m n' →
    B.Alone e m { n' with store := m'.store }

theorem Couples.inScope {B D : Bond} {store store' : Store} (hnests : B.Nests D store store')
    {act : Action Machine α} {other : Action Machine β} (h : D.Couples V act other) :
    B.Couples V (Machine.inScope store act) (Machine.inScope store' other) := by
  constructor
  · intro m m' hm
    have hends := h.ends (hnests.enter hm)
    unfold Machine.inScope
    cases hrun : act { m with store } with
    | mk r n =>
      cases hrun' : other { m' with store := store' } with
      | mk r' n' =>
        rw [hrun, hrun'] at hends
        cases hends with
        | ok hvalue hn => exact .ok hvalue (hnests.leave hm hn)
        | error he hn => exact .error (hnests.errors he) (hnests.fail hm hn)
        | alone hn hvalue => exact .alone (hnests.part hm hn) hvalue
  · intro e m m' hm
    obtain ⟨hn, hvalue⟩ := h.onward (hnests.enterAlone hm)
    exact ⟨hnests.leaveAlone hm hn, hvalue⟩

theorem Nests.of_together {B D : Bond} (hB : B.Together) (hD : D.Together) {store store' : Store}
    (errors : ∀ {e e' : Error}, D.Errors e e' → B.Errors e e')
    (enter : ∀ {m m' : Machine}, B.Between m m' →
      D.Between { m with store } { m' with store := store' })
    (leave : ∀ {m m' n n' : Machine}, B.Between m m' → D.Between n n' →
      B.Between { n with store := m.store } { n' with store := m'.store })
    (fail : ∀ {m m' n n' : Machine}, B.Between m m' → D.Broken n n' →
      B.Broken { n with store := m.store } { n' with store := m'.store }) :
    B.Nests D store store' where
  errors := errors
  enter := enter
  leave := leave
  fail := fail
  part _ h := absurd h (hD _ _ _)
  enterAlone h := absurd h (hB _ _ _)
  leaveAlone h := absurd h (hB _ _ _)

/-- One machine beside itself: what a run keeps, and which errors it has. -/
def diagonal (I : Machine → Prop) (E : Error → Prop) : Bond where
  Between := Same I
  Broken := Same I
  Errors := Same E
  broken := id

theorem diagonal_together (I : Machine → Prop) (E : Error → Prop) : (diagonal I E).Together :=
  fun _ _ _ => id

/-- On the diagonal, two actions are coupled if they do the same, keep what the machine has to have,
and have values and errors as they should be. -/
theorem diagonal_couples_iff {I : Machine → Prop} {E : Error → Prop} {P : α → Prop}
    {act other : Action Machine α} :
    (diagonal I E).Couples (Same P) act other ↔ ∀ m, I m →
      other m = act m ∧ I (act m).2 ∧ (∀ a, (act m).1 = .ok a → P a) ∧
        ∀ e, (act m).1 = .error e → E e := by
  constructor
  · intro h m hm
    have hends := h.ends (⟨rfl, hm⟩ : Same I m m)
    generalize act m = x at hends
    generalize other m = y at hends
    cases hends with
    | ok hvalue hn =>
      obtain ⟨rfl, ha⟩ := hvalue
      obtain ⟨rfl, hn⟩ := hn
      refine ⟨rfl, hn, ?_, ?_⟩
      · rintro _ ⟨⟩
        exact ha
      · rintro _ ⟨⟩
    | error he hn =>
      obtain ⟨rfl, he⟩ := he
      obtain ⟨rfl, hn⟩ := hn
      refine ⟨rfl, hn, ?_, ?_⟩
      · rintro _ ⟨⟩
      · rintro _ ⟨⟩
        exact he
    | alone halone => exact halone.elim
  · intro h
    apply Couples.of_ends (diagonal_together I E)
    rintro m _ ⟨rfl, hm⟩
    obtain ⟨hsame, hn, hvalue, he⟩ := h m hm
    rw [hsame]
    generalize act m = x at hn hvalue he
    obtain ⟨r, n⟩ := x
    cases r with
    | ok a => exact .ok ⟨rfl, hvalue a rfl⟩ ⟨rfl, hn⟩
    | error e => exact .error ⟨rfl, he e rfl⟩ ⟨rfl, hn⟩

end Bond

end LoopLanguage
