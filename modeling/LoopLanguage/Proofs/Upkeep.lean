import LoopLanguage.Proofs.Stepping

/-!
What steps keep. Values come into a scope in few ways: as a literal, as a number that is read, as
zero for a result, as a value that is there already, or as the value after one that is there. A
property of values that literals, numbers and zero have holds in all scopes all along a trail, as
long as the increments on it keep it as well. `Upkeep` lists what has to be known of the statements.
-/

namespace LoopLanguage

namespace Machine

/-- All values in scope have the property `P`, and all programs the property `D`. -/
structure Within (P : Int → Prop) (D : Definition → Prop) (machine : Machine) : Prop where
  store : machine.store.Holds P
  programs : ∀ d ∈ machine.registry, D d

/-- The action keeps the machine within bounds, whether it fails or not, and gives values with the
property `Q`. -/
def Keeps {α : Type} (P : Int → Prop) (D : Definition → Prop) (act : Action Machine α)
    (Q : α → Prop) : Prop :=
  ∀ machine : Machine, machine.Within P D →
    (act machine).2.Within P D ∧ ∀ a, (act machine).1 = .ok a → Q a

section Keeping

variable {α : Type} {P : Int → Prop} {D : Definition → Prop} {Q : α → Prop}

/-- To keep the machine within bounds is to keep a bond of the machine with itself. -/
theorem keeps_iff {act : Action Machine α} : Keeps P D act Q ↔
    (Bond.diagonal (Within P D) fun _ => True).Couples (Same Q) act act := by
  rw [Bond.diagonal_couples_iff]
  constructor
  · intro h machine hwithin
    obtain ⟨hafter, hvalue⟩ := h machine hwithin
    exact ⟨rfl, hafter, hvalue, fun _ _ => trivial⟩
  · intro h machine hwithin
    obtain ⟨_, hafter, hvalue, _⟩ := h machine hwithin
    exact ⟨hafter, hvalue⟩

/-- After an action that only changes the machine, a value is returned. -/
theorem keeps_return {act : Action Machine Unit} {a : α}
    (h : (Bond.diagonal (Within P D) fun _ => True).Couples Eq act act) (ha : Q a) :
    Keeps P D (do act; return a) Q :=
  keeps_iff.mpr (h.bind fun _ _ _ => .pure ⟨rfl, ha⟩)

theorem upholds_within (P : Int → Prop) (D : Definition → Prop) : Upholds (Within P D) P where
  frame hstore hregistry h := ⟨hstore ▸ h.store, hregistry ▸ h.programs⟩
  put name _ h hvalue := ⟨h.store.put name hvalue, h.programs⟩
  get h hvalue := h.store _ _ hvalue

/-- Going over to a scope whose values have the property. -/
theorem setStore_couples {store : Store} (h : store.Holds P) :
    (Bond.diagonal (Within P D) fun _ => True).Couples Eq
      (Action.modify fun machine => { machine with store })
      (Action.modify fun machine => { machine with store }) :=
  Bond.diagonal_modify fun _ hwithin => ⟨h, hwithin.programs⟩

end Keeping

/-- What has to be known for the values to keep the property `P`: which values come in from
outside, and that what is said of a statement (`S`) and of a program (`D`) is said of the statements
inside. -/
structure Upkeep (P : Int → Prop) (S : Statement → Prop) (D : Definition → Prop) : Prop where
  zero : P 0
  read {digits : List Char} {n : Nat} : Numeral.read digits = .ok n → P n
  assign {target : Atom} {value : Int} : S (.assign target value) → P value
  loop {count : Atom} {body : List Statement} : S (.loop count body) → ∀ s ∈ body, S s
  define {name : Atom} {params : List Atom} {body : List Statement} :
    S (.define name params body) → D ⟨name, params, body⟩
  body {d : Definition} : D d → ∀ s ∈ d.body, S s

/-- Runs whose values have the property. -/
def Upkeep.alignment {P : Int → Prop} {S : Statement → Prop} {D : Definition → Prop}
    (h : Upkeep P S D) (tracing : Tracing) : Alignment :=
  @Alignment.diagonal (Within P D) (fun _ => True) tracing P (upholds_within P D)
    (fun _ => trivial) h.read

/-- The statements of the task have the property `S`, and its values have the property `P`. -/
def Task.Within (P : Int → Prop) (S : Statement → Prop) : Task → Prop
  | .perform s => S s
  | .read _ => True
  | .rounds _ body => ∀ s ∈ body, S s
  | .leave _ _ caller => caller.Holds P

section Steps

variable {tracing : Tracing} {P : Int → Prop} {S : Statement → Prop} {D : Definition → Prop}
  {waiting : List Task}

theorem callers_within {agenda : List Task} (h : ∀ task ∈ agenda, task.Within P S) :
    ∀ store ∈ callers agenda, store.Holds P := by
  intro store hstore
  obtain ⟨task, htask, hcaller⟩ := List.mem_filterMap.mp hstore
  cases task with
  | leave target program caller =>
    cases hcaller
    exact h _ htask
  | perform | read | rounds => cases hcaller

theorem performs_within {body : List Statement} (h : ∀ s ∈ body, S s) :
    ∀ task ∈ body.map Task.perform, task.Within P S := by
  intro task htask
  obtain ⟨s, hs, rfl⟩ := List.mem_map.mp htask
  exact h s hs

theorem ready_couples (s : Statement) :
    (Bond.diagonal (Within P D) fun _ => True).Couples Eq (Action.ofExcept s.checkReady)
      (Action.ofExcept s.checkReady) :=
  (Bond.diagonal_ofExcept _ fun _ => trivial).forget

theorem Upkeep.enterCall_couples (h : Upkeep P S D) (program : Atom) (args : List Atom) :
    (Bond.diagonal (Within P D) fun _ => True).Couples
      (Same fun entry => entry.1.Holds P ∧ D entry.2) (enterCall tracing program args)
      (enterCall tracing program args) := by
  have hopening : (h.alignment tracing).bond.Couples (Same fun entry => entry.1.Holds P ∧ D entry.2)
      (ask (opening program args)) (ask (opening program args)) := by
    apply Bond.diagonal_ask (fun _ => trivial) (opening_settled program args)
    intro m entry hwithin hentry
    obtain ⟨hinner, hfound⟩ := opening_eq_ok hentry
    exact ⟨hwithin.store.enter h.zero hinner,
      hwithin.programs entry.2 (List.mem_of_find?_eq_some hfound)⟩
  apply Alignment.enterCall_couples (A := h.alignment tracing) rfl hopening
  rintro entry _ ⟨rfl, _⟩
  exact ⟨rfl, rfl⟩

theorem Upkeep.leaveCall_couples (h : Upkeep P S D) (target program : Atom) {value : Int}
    (hvalue : P value) :
    (Bond.diagonal (Within P D) fun _ => True).Couples Eq
      (leaveCall tracing target program value) (leaveCall tracing target program value) := by
  apply (Bond.diagonal_ofExcept _ fun _ => trivial).bind
  rintro name _ ⟨rfl, _⟩
  apply (Bond.diagonal_ofExcept _ fun _ => trivial).bind
  rintro shown _ ⟨rfl, _⟩
  apply ((h.alignment tracing).emit (.result name shown)).bind
  intro _ _ _
  exact (h.alignment tracing).put trivial hvalue

/-- The step of a task that takes no increment. -/
theorem Upkeep.step_keeps (h : Upkeep P S D) {task : Task} (htask : task.Within P S)
    (hwaiting : ∀ task ∈ waiting, task.Within P S)
    (hplain : ∀ target operand, task ≠ .perform (.increment target operand)) :
    Keeps P D (step tracing task waiting) fun agenda => ∀ task ∈ agenda, task.Within P S := by
  cases task with
  | perform s =>
    cases s with
    | assign target value =>
      rw [step, execute]
      · apply keeps_return _ hwaiting
        apply (ready_couples _).bind
        intro _ _ _
        exact (h.alignment tracing).assign trivial (h.assign htask)
      all_goals simp
    | increment target operand => exact absurd rfl (hplain target operand)
    | call target callee args =>
      rw [step, keeps_iff]
      apply (ready_couples _).bind
      intro _ _ _
      apply (h.enterCall_couples callee args).bind
      rintro ⟨inner, definition⟩ _ ⟨rfl, hinner, hdefinition⟩
      apply Bond.diagonal_get.bind
      rintro machine _ ⟨rfl, hwithin⟩
      apply (setStore_couples hinner).bind
      intro _ _ _
      have hrest : ∀ task ∈ .leave target callee machine.store :: waiting, task.Within P S :=
        List.forall_mem_cons.mpr ⟨hwithin.store, hwaiting⟩
      exact .pure ⟨rfl, List.forall_mem_append.mpr ⟨performs_within (h.body hdefinition), hrest⟩⟩
    | input targets =>
      rw [step, keeps_iff]
      apply Bond.Couples.pure
      refine ⟨rfl, List.forall_mem_append.mpr ⟨?_, hwaiting⟩⟩
      intro task htask
      obtain ⟨t, _, rfl⟩ := List.mem_map.mp htask
      trivial
    | output items =>
      rw [step, execute]
      · apply keeps_return _ hwaiting
        apply Bond.diagonal_get.bind
        rintro machine _ ⟨rfl, _⟩
        apply (Bond.diagonal_ofExcept _ fun _ => trivial).bind
        rintro line _ ⟨rfl, _⟩
        exact (h.alignment tracing).print _
      all_goals simp
    | loop count body =>
      rw [step, keeps_iff]
      apply (ready_couples _).bind
      intro _ _ _
      apply ((h.alignment tracing).comparison.enterLoop_couples ⟨rfl, trivial⟩).bind
      rintro value _ ⟨rfl, _⟩
      exact .pure ⟨rfl, List.forall_mem_cons.mpr ⟨h.loop htask, hwaiting⟩⟩
    | define name params body =>
      rw [step, execute]
      · apply keeps_return _ hwaiting
        apply (ready_couples _).bind
        intro _ _ _
        apply Bond.Couples.register rfl (h.alignment tracing).refl
        apply Bond.diagonal_modify
        intro machine hwithin
        exact ⟨hwithin.store, forall_including hwithin.programs (h.define htask)⟩
      all_goals simp
    | missing | token | program =>
      rw [step, execute]
      · exact keeps_return (.fail ⟨rfl, trivial⟩) hwaiting
      all_goals simp
  | read t =>
    apply keeps_return _ hwaiting
    exact (h.alignment tracing).comparison.readTarget_couples
      ((h.alignment tracing).target rfl rfl fun _ => trivial)
  | rounds count body =>
    rw [keeps_iff]
    cases count with
    | zero => exact .pure ⟨rfl, hwaiting⟩
    | succ count =>
      have hrest : ∀ task ∈ .rounds count body :: waiting, task.Within P S :=
        List.forall_mem_cons.mpr ⟨htask, hwaiting⟩
      exact .pure ⟨rfl, List.forall_mem_append.mpr ⟨performs_within htask, hrest⟩⟩
  | leave target program caller =>
    rw [step, keeps_iff]
    apply Bond.diagonal_get.bind
    rintro machine _ ⟨rfl, hwithin⟩
    apply (Bond.diagonal_ofExcept _ fun _ => trivial).bind
    rintro value _ ⟨rfl, hvalue⟩
    apply (setStore_couples htask).bind
    intro _ _ _
    apply (h.leaveCall_couples target program (hwithin.store.read hvalue)).bind
    intro _ _ _
    exact .pure ⟨rfl, hwaiting⟩

theorem Upkeep.increment_keeps (h : Upkeep P S D) (hsucc : ∀ value, P value → P (value + 1))
    (target operand : Atom) (hwaiting : ∀ task ∈ waiting, task.Within P S) :
    Keeps P D (step tracing (.perform (.increment target operand)) waiting)
      fun agenda => ∀ task ∈ agenda, task.Within P S := by
  rw [step, execute]
  · apply keeps_return _ hwaiting
    apply (ready_couples _).bind
    intro _ _ _
    apply ((h.alignment tracing).comparison.operandValue_couples ⟨rfl, trivial⟩
      ⟨rfl, trivial⟩).bind
    rintro value _ ⟨rfl, hvalue⟩
    exact (h.alignment tracing).assign trivial (hsucc value hvalue)
  all_goals simp

end Steps

structure Point.Within (P : Int → Prop) (S : Statement → Prop) (D : Definition → Prop)
    (p : Point) : Prop where
  machine : p.machine.Within P D
  agenda : ∀ task ∈ p.agenda, task.Within P S

section Points

variable {tracing : Tracing} {P : Int → Prop} {S : Statement → Prop} {D : Definition → Prop}
  {p q : Point}

theorem Point.Within.scopes (hp : p.Within P S D) : ∀ store ∈ p.scopes, store.Holds P :=
  List.forall_mem_cons.mpr ⟨hp.machine.store, callers_within hp.agenda⟩

/-- A step keeps within bounds also if it fails. -/
theorem Upkeep.point_step (h : Upkeep P S D) (hsucc : ∀ value, P value → P (value + 1))
    {task : Task} {waiting : List Task} {machine : Machine}
    (hp : Point.Within P S D ⟨machine, task :: waiting⟩) :
    (step tracing task waiting machine).2.Within P D ∧
      ∀ agenda, (step tracing task waiting machine).1 = .ok agenda →
        ∀ task ∈ agenda, task.Within P S := by
  obtain ⟨htask, hwaiting⟩ := List.forall_mem_cons.mp hp.agenda
  by_cases hplain : ∃ target operand, task = .perform (.increment target operand)
  · obtain ⟨target, operand, rfl⟩ := hplain
    exact h.increment_keeps hsucc target operand hwaiting machine hp.machine
  · exact h.step_keeps htask hwaiting (fun target operand heq => hplain ⟨target, operand, heq⟩)
      machine hp.machine

theorem Upkeep.trail (h : Upkeep P S D) (hsucc : ∀ value, P value → P (value + 1))
    (hp : p.Within P S D) (htrail : Trail tracing p q) : q.Within P S D := by
  induction htrail with
  | refl => exact hp
  | tail _ hmove ih =>
    cases hmove with
    | step hstep =>
      obtain ⟨hafter, hagenda⟩ := h.point_step hsucc ih
      rw [hstep] at hafter hagenda
      exact ⟨hafter, hagenda _ rfl⟩

theorem Upkeep.breaks (h : Upkeep P S D) (hsucc : ∀ value, P value → P (value + 1))
    (hp : p.Within P S D) {e : Error} {final : Machine} (hbreak : Breaks tracing p e final) :
    final.Within P D := by
  cases hbreak with
  | step hstep =>
    obtain ⟨hafter, _⟩ := h.point_step hsucc hp
    rw [hstep] at hafter
    exact hafter

end Points

end Machine

end LoopLanguage
