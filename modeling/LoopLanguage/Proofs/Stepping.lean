import LoopLanguage.Proofs.Faults

/-!
A run as a trail of points. At each point there is a machine and an agenda of tasks, and the calls
that have not come back yet are on the agenda with the scopes of their callers. One step does the
first task, which may put other tasks in its place. `executeBlock_carries` says that running a block
and following the trail come to the same: to the same machine, or to a step that fails with the same
error. So whatever is shown of every point on a trail holds all the way through a run.
-/

namespace LoopLanguage

namespace Machine

inductive Task where
  | perform (s : Statement)
  /-- A target of `INPUT`. -/
  | read (t : Token)
  /-- So many more rounds of a loop. -/
  | rounds (count : Nat) (body : List Statement)
  /-- The return from a called program to the scope of its caller. -/
  | leave (target program : Atom) (caller : Store)

structure Point where
  machine : Machine
  agenda : List Task

/-- The scopes to which calls on the agenda return, the innermost first. -/
def callers (agenda : List Task) : List Store :=
  agenda.filterMap fun
    | .leave _ _ caller => some caller
    | _ => none

/-- The scopes that are alive, that of the innermost call first. -/
def Point.scopes (p : Point) : List Store := p.machine.store :: callers p.agenda

/-- The scope that is left when all tasks are dropped. -/
def outermost (store : Store) (tasks : List Task) : Store := (callers tasks).getLastD store

/-- What happens after the last statement of a called program, back in the scope of the caller. -/
def leaveCall (tracing : Tracing) (target program : Atom) (value : Int) : Action Machine Unit := do
  let name ← Action.ofExcept program.shown
  let shown ← Action.ofExcept (Numeral.write value)
  emit tracing 1 ("return " ++ name ++ " -> " ++ shown)
  setVariable target value

/-- Do a task while others are waiting; the value is the agenda after it. -/
def step (tracing : Tracing) : Task → List Task → Action Machine (List Task)
  | .perform (.loop count body), waiting => do
    Action.ofExcept (Statement.loop count body).checkReady
    let value ← enterLoop tracing count
    return .rounds value.toNat body :: waiting
  | .perform (.call target callee args), waiting => do
    Action.ofExcept (Statement.call target callee args).checkReady
    let (inner, definition) ← enterCall tracing callee args
    let caller := (← Action.get).store
    Action.modify fun machine => { machine with store := inner }
    return definition.body.map .perform ++ .leave target callee caller :: waiting
  | .perform (.input targets), waiting => return targets.map .read ++ waiting
  | .perform s, waiting => do
    -- No other statement calls a program.
    execute tracing (fun _ _ => Action.fail .exhausted) s
    return waiting
  | .read t, waiting => do
    readTarget tracing t
    return waiting
  | .rounds 0 _, waiting => return waiting
  | .rounds (count + 1) body, waiting => return body.map .perform ++ .rounds count body :: waiting
  | .leave target program caller, waiting => do
    let value ← Action.ofExcept ((← Action.get).store.read Store.result)
    Action.modify fun machine => { machine with store := caller }
    leaveCall tracing target program value
    return waiting

/-- One step from a point to the next. -/
inductive Moves (tracing : Tracing) : Point → Point → Prop
  | step {task : Task} {waiting agenda : List Task} {machine after : Machine}
      (h : step tracing task waiting machine = (.ok agenda, after)) :
      Moves tracing ⟨machine, task :: waiting⟩ ⟨after, agenda⟩

/-- The step from the point fails and leaves a machine. -/
inductive Breaks (tracing : Tracing) : Point → Error → Machine → Prop
  | step {task : Task} {waiting : List Task} {machine final : Machine} {e : Error}
      (h : step tracing task waiting machine = (.error e, final)) :
      Breaks tracing ⟨machine, task :: waiting⟩ e final

abbrev Trail (tracing : Tracing) : Point → Point → Prop := Relation.ReflTransGen (Moves tracing)

/-- The trail from the point comes to a step that fails before the tasks that are waiting have their
turn; the machine after it, back in the outermost scope, is `after`. -/
def Stumbles (tracing : Tracing) (start : Point) (waiting : List Task) (e : Error)
    (after : Machine) : Prop :=
  ∃ found above final, Trail tracing start ⟨found, above ++ waiting⟩ ∧
    Breaks tracing ⟨found, above ++ waiting⟩ e final ∧
    after = { final with store := outermost final.store above }

section Trails

variable {tracing : Tracing} {start next : Point} {above waiting : List Task} {e : Error}
  {after : Machine}

theorem callers_append (first second : List Task) :
    callers (first ++ second) = callers first ++ callers second :=
  List.filterMap_append

@[simp] theorem callers_performs (body : List Statement) : callers (body.map .perform) = [] := by
  simp [callers]

@[simp] theorem callers_reads (targets : List Token) : callers (targets.map .read) = [] := by
  simp [callers]

theorem Stumbles.of_trail (htrail : Trail tracing start next)
    (h : Stumbles tracing next waiting e after) : Stumbles tracing start waiting e after := by
  obtain ⟨found, above, final, hmore, hbreak, hafter⟩ := h
  exact ⟨found, above, final, htrail.trans hmore, hbreak, hafter⟩

/-- Waiting tasks that hold no scope make no difference. -/
theorem Stumbles.widen {tasks : List Task} (htasks : callers tasks = [])
    (h : Stumbles tracing start (tasks ++ waiting) e after) :
    Stumbles tracing start waiting e after := by
  obtain ⟨found, above, final, htrail, hbreak, hafter⟩ := h
  rw [← List.append_assoc] at htrail hbreak
  refine ⟨found, above ++ tasks, final, htrail, hbreak, ?_⟩
  rw [hafter, outermost, outermost, callers_append, htasks, List.append_nil]

/-- From a called program one comes back to its caller. -/
theorem Stumbles.leave {target program : Atom} {caller : Store}
    (h : Stumbles tracing start (.leave target program caller :: waiting) e after) :
    Stumbles tracing start waiting e { after with store := caller } := by
  obtain ⟨found, above, final, htrail, hbreak, hafter⟩ := h
  rw [List.append_cons] at htrail hbreak
  refine ⟨found, above ++ [.leave target program caller], final, htrail, hbreak, ?_⟩
  have hlast : outermost final.store (above ++ [.leave target program caller]) = caller := by
    rw [outermost, callers_append]
    exact List.getLastD_concat
  rw [hafter, hlast]

/-- The first step fails. -/
theorem Stumbles.here {task : Task} {machine : Machine}
    (h : step tracing task waiting machine = (.error e, after)) :
    Stumbles tracing ⟨machine, task :: waiting⟩ waiting e
      { after with store := outermost after.store [task] } :=
  ⟨machine, [task], after, .refl, .step h, rfl⟩

end Trails

/-- Following the trail of the tasks comes to the same as the action, unless that breaks off because
calls went too deep for it. -/
structure Carries (tracing : Tracing) (tasks : List Task) (act : Action Machine Unit) : Prop where
  ok : ∀ {machine after : Machine} (waiting : List Task), act machine = (.ok (), after) →
    Trail tracing ⟨machine, tasks ++ waiting⟩ ⟨after, waiting⟩
  error : ∀ {machine after : Machine} {e : Error} (waiting : List Task),
    act machine = (.error e, after) → e ≠ .exhausted →
      Stumbles tracing ⟨machine, tasks ++ waiting⟩ waiting e after

namespace Carries

variable {tracing : Tracing} {tasks more : List Task} {act other : Action Machine Unit}

theorem nil : Carries tracing [] (pure ()) := by
  constructor
  · intro machine after waiting h
    cases h
    exact .refl
  · intro machine after e waiting h
    cases h

theorem append (h : Carries tracing tasks act) (hmore : Carries tracing more other)
    (hcallers : callers more = []) :
    Carries tracing (tasks ++ more) (act >>= fun _ => other) := by
  constructor
  · intro machine after waiting hrun
    obtain ⟨_, middle, hfirst, hsecond⟩ := Action.bind_eq_ok_iff.mp hrun
    rw [List.append_assoc]
    exact (h.ok (more ++ waiting) hfirst).trans (hmore.ok waiting hsecond)
  · intro machine after e waiting hrun he
    rw [List.append_assoc]
    cases hfirst : act machine with
    | mk r middle =>
      cases r with
      | ok _ =>
        rw [Action.bind_ok hfirst] at hrun
        exact .of_trail (h.ok (more ++ waiting) hfirst) (hmore.error waiting hrun he)
      | error e' =>
        rw [Action.bind_error hfirst] at hrun
        cases hrun
        exact (h.error (more ++ waiting) hfirst he).widen hcallers

/-- A task that does the first part of an action and leaves the second to other tasks. -/
theorem of_step {α : Type} {task : Task} {first : Action Machine α} (tasks : α → List Task)
    {f : α → Action Machine Unit} (htask : callers [task] = [])
    (hstep : ∀ waiting, step tracing task waiting = first >>= fun a => pure (tasks a ++ waiting))
    (h : ∀ a, Carries tracing (tasks a) (f a)) : Carries tracing [task] (first >>= f) := by
  have hmove : ∀ {machine middle a} waiting, first machine = (.ok a, middle) →
      Moves tracing ⟨machine, task :: waiting⟩ ⟨middle, tasks a ++ waiting⟩ := by
    intro machine middle a waiting hfirst
    apply Moves.step
    rw [hstep, Action.bind_ok hfirst]
    rfl
  constructor
  · intro machine after waiting hrun
    obtain ⟨a, middle, hfirst, hsecond⟩ := Action.bind_eq_ok_iff.mp hrun
    exact .head (hmove waiting hfirst) ((h a).ok waiting hsecond)
  · intro machine after e waiting hrun he
    cases hfirst : first machine with
    | mk r middle =>
      cases r with
      | ok a =>
        rw [Action.bind_ok hfirst] at hrun
        exact .of_trail (.single (hmove waiting hfirst)) ((h a).error waiting hrun he)
      | error e' =>
        rw [Action.bind_error hfirst] at hrun
        cases hrun
        have hfails : step tracing task waiting machine = (.error e, after) := by
          rw [hstep, Action.bind_error hfirst]
        have hhere := Stumbles.here hfails
        rw [outermost, htask] at hhere
        exact hhere

/-- A task that is done in one step. -/
theorem of_single {task : Task} (htask : callers [task] = [])
    (hstep : ∀ waiting, step tracing task waiting = act >>= fun _ => pure waiting) :
    Carries tracing [task] act := by
  have h := of_step (fun _ => []) (f := fun _ => pure ()) htask hstep fun _ => nil
  rwa [bind_pure_unit] at h

theorem rounds {body : List Statement} (h : Carries tracing (body.map .perform) act)
    (count : Nat) : Carries tracing [.rounds count body] (iterate act count) := by
  induction count with
  | zero => exact of_single rfl fun _ => rfl
  | succ count ih =>
    have hround := h.append ih rfl
    rw [iterate_succ, ← pure_bind () fun _ => act >>= fun _ => iterate act count]
    exact of_step (fun _ => body.map .perform ++ [.rounds count body]) rfl
      (fun waiting => by simp [step]) fun _ => hround

end Carries

section Runs

variable {tracing : Tracing} {call : Atom → List Atom → Action Machine Int}

theorem readTargets_carries (targets : List Token) :
    Carries tracing (targets.map .read) (readTargets tracing targets) := by
  induction targets with
  | nil => exact .nil
  | cons t targets ih =>
    have hread : Carries tracing [.read t] (readTarget tracing t) := .of_single rfl fun _ => rfl
    exact hread.append ih (callers_reads targets)

theorem execute_call (depth : Nat) (target callee : Atom) (args : List Atom) :
    execute tracing (callProgram tracing (depth + 1)) (.call target callee args) = (do
      Action.ofExcept (Statement.call target callee args).checkReady
      let (inner, definition) ← enterCall tracing callee args
      let value ← inScope inner do
        executeBlock tracing (callProgram tracing depth) definition.body
        Action.ofExcept ((← Action.get).store.read Store.result)
      leaveCall tracing target callee value) := by
  simp only [execute, callProgram_succ, runBody, leaveCall, bind_assoc, pure_bind]

/-- If something fails after a call, the caller's variables are as they were before it. -/
theorem leaveCall_failed {target program : Atom} {value : Int} {machine after : Machine} {e : Error}
    (h : leaveCall tracing target program value machine = (.error e, after)) :
    after.store = machine.store := by
  unfold leaveCall at h
  cases hname : program.shown with
  | error e' =>
    rw [hname, Action.bind_error (Action.ofExcept_error e' machine)] at h
    cases h
    rfl
  | ok name =>
    rw [hname, Action.bind_ok (Action.ofExcept_ok name machine)] at h
    cases hshown : Numeral.write value with
    | error e' =>
      rw [hshown, Action.bind_error (Action.ofExcept_error e' machine)] at h
      cases h
      rfl
    | ok shown =>
      obtain ⟨next, hemit, hquiet⟩ :=
        emit_quiet tracing 1 ("return " ++ name ++ " -> " ++ shown) machine
      rw [hshown, Action.bind_ok (Action.ofExcept_ok shown machine), Action.bind_ok hemit] at h
      cases hkey : target.checkKey with
      | error e' =>
        rw [setVariable_of_no_key hkey] at h
        cases h
        exact hquiet.store
      | ok _ =>
        rw [setVariable_of_key hkey] at h
        cases h

section Leaving

variable {target program : Atom} {caller inner : Store} {deep entered after : Machine} {e : Error}
  {act : Action Machine Unit} {waiting : List Task}

theorem leave_ok (h : (Action.ofExcept (deep.store.read Store.result) >>=
      leaveCall tracing target program) { deep with store := caller } = (.ok (), after)) :
    Moves tracing ⟨deep, .leave target program caller :: waiting⟩ ⟨after, waiting⟩ := by
  obtain ⟨value, hread, hleave⟩ := Action.ofExcept_bind_eq_ok_iff.mp h
  apply Moves.step
  rw [step, Action.get_bind, hread, Action.bind_ok (Action.ofExcept_ok value deep),
    Action.modify_bind, Action.bind_ok hleave]
  rfl

theorem leave_error (h : (Action.ofExcept (deep.store.read Store.result) >>=
      leaveCall tracing target program) { deep with store := caller } = (.error e, after)) :
    Stumbles tracing ⟨deep, .leave target program caller :: waiting⟩ waiting e after := by
  cases hread : deep.store.read Store.result with
  | error e' =>
    rw [hread, Action.bind_error (Action.ofExcept_error e' _)] at h
    cases h
    apply Stumbles.here
    rw [step, Action.get_bind, hread, Action.bind_error (Action.ofExcept_error e deep)]
  | ok value =>
    rw [hread, Action.bind_ok (Action.ofExcept_ok value _)] at h
    have hstep : step tracing (.leave target program caller) waiting deep = (.error e, after) := by
      rw [step, Action.get_bind, hread, Action.bind_ok (Action.ofExcept_ok value deep),
        Action.modify_bind, Action.bind_error h]
    have hhere : Stumbles tracing ⟨deep, .leave target program caller :: waiting⟩ waiting e
        { after with store := caller } := .here hstep
    have hstore : after.store = caller := leaveCall_failed h
    have hafter : { after with store := caller } = after := by
      rw [← hstore]
    rwa [hafter] at hhere

/-- After the body of a called program the result is read there and goes to the caller. -/
theorem inScope_bind_ok {f : Int → Action Machine Unit}
    (h : act { entered with store := inner } = (.ok (), deep)) :
    (inScope inner (do act; Action.ofExcept ((← Action.get).store.read Store.result)) >>= f)
        entered =
      (Action.ofExcept (deep.store.read Store.result) >>= f)
        { deep with store := entered.store } := by
  cases hread : deep.store.read Store.result with
  | ok value =>
    have hscope : inScope inner (do act; Action.ofExcept ((← Action.get).store.read Store.result))
        entered = (.ok value, { deep with store := entered.store }) := by
      simp only [inScope, Action.bind_ok h, Action.get_bind, hread, Action.ofExcept_ok]
    rw [Action.bind_ok hscope, Action.bind_ok (Action.ofExcept_ok value _)]
  | error e =>
    have hscope : inScope inner (do act; Action.ofExcept ((← Action.get).store.read Store.result))
        entered = (.error e, { deep with store := entered.store }) := by
      simp only [inScope, Action.bind_ok h, Action.get_bind, hread, Action.ofExcept_error]
    rw [Action.bind_error hscope, Action.bind_error (Action.ofExcept_error e _)]

theorem inScope_bind_error {f : Int → Action Machine Unit}
    (h : act { entered with store := inner } = (.error e, deep)) :
    (inScope inner (do act; Action.ofExcept ((← Action.get).store.read Store.result)) >>= f)
        entered = (.error e, { deep with store := entered.store }) := by
  have hscope : inScope inner (do act; Action.ofExcept ((← Action.get).store.read Store.result))
      entered = (.error e, { deep with store := entered.store }) := by
    simp only [inScope, Action.bind_error h]
  exact Action.bind_error hscope

end Leaving

/-- A call whose body is carried by its statements is carried by a single task. -/
theorem call_carries {depth : Nat}
    (hbody : ∀ body : List Statement, Carries tracing (body.map .perform)
      (executeBlock tracing (callProgram tracing depth) body))
    (target callee : Atom) (args : List Atom) :
    Carries tracing [.perform (.call target callee args)]
      (execute tracing (callProgram tracing (depth + 1)) (.call target callee args)) := by
  have hstep : ∀ waiting, step tracing (.perform (.call target callee args)) waiting =
      (do
        Action.ofExcept (Statement.call target callee args).checkReady
        enterCall tracing callee args) >>= fun entry => do
          let caller := (← Action.get).store
          Action.modify fun machine => { machine with store := entry.1 }
          return entry.2.body.map .perform ++ .leave target callee caller :: waiting := by
    intro waiting
    rw [step, bind_assoc]
  rw [execute_call, ← bind_assoc]
  generalize (do
    Action.ofExcept (Statement.call target callee args).checkReady
    enterCall tracing callee args) = enter at hstep
  have hmove : ∀ {machine entered inner definition} waiting,
      enter machine = (.ok (inner, definition), entered) →
      Moves tracing ⟨machine, .perform (.call target callee args) :: waiting⟩
        ⟨{ entered with store := inner },
          definition.body.map .perform ++ .leave target callee entered.store :: waiting⟩ := by
    intro machine entered inner definition waiting henter
    apply Moves.step
    rw [hstep, Action.bind_ok henter]
    rfl
  constructor
  · intro machine after waiting hrun
    obtain ⟨⟨inner, definition⟩, entered, henter, hrest⟩ := Action.bind_eq_ok_iff.mp hrun
    dsimp only at hrest
    cases hblock : executeBlock tracing (callProgram tracing depth) definition.body
        { entered with store := inner } with
    | mk r deep =>
      cases r with
      | ok _ =>
        rw [inScope_bind_ok hblock] at hrest
        exact .head (hmove waiting henter)
          (((hbody definition.body).ok _ hblock).tail (leave_ok hrest))
      | error e =>
        rw [inScope_bind_error hblock] at hrest
        cases hrest
  · intro machine after e waiting hrun he
    cases henter : enter machine with
    | mk r entered =>
      cases r with
      | error e' =>
        rw [Action.bind_error henter] at hrun
        cases hrun
        apply Stumbles.here
        rw [hstep, Action.bind_error henter]
      | ok entry =>
        obtain ⟨inner, definition⟩ := entry
        rw [Action.bind_ok henter] at hrun
        dsimp only at hrun
        cases hblock : executeBlock tracing (callProgram tracing depth) definition.body
            { entered with store := inner } with
        | mk r deep =>
          cases r with
          | ok _ =>
            rw [inScope_bind_ok hblock] at hrun
            exact .of_trail (.head (hmove waiting henter) ((hbody definition.body).ok _ hblock))
              (leave_error hrun)
          | error e' =>
            rw [inScope_bind_error hblock] at hrun
            cases hrun
            exact .of_trail (.single (hmove waiting henter))
              ((hbody definition.body).error _ hblock he).leave

/-- No call is carried where none may be made; there it breaks off. -/
theorem call_carries_zero (target callee : Atom) (args : List Atom) :
    Carries tracing [.perform (.call target callee args)]
      (execute tracing (callProgram tracing 0) (.call target callee args)) := by
  rw [execute]
  cases hready : (Statement.call target callee args).checkReady with
  | ok _ =>
    constructor
    · intro machine after waiting hrun
      cases hrun
    · intro machine after e waiting hrun he
      cases hrun
      exact absurd rfl he
  | error e =>
    constructor
    · intro machine after waiting hrun
      cases hrun
    · intro machine after e' waiting hrun he
      cases hrun
      apply Stumbles.here
      rw [step, hready]
      rfl

mutual

theorem execute_carries
    (hcall : ∀ target callee args, Carries tracing [.perform (.call target callee args)]
      (execute tracing call (.call target callee args))) :
    ∀ s : Statement, Carries tracing [.perform s] (execute tracing call s)
  | .call target callee args => hcall target callee args
  | .loop count body => by
    have hbody := executeBlock_carries hcall body
    rw [execute_loop, ← bind_assoc]
    exact .of_step (fun value => [.rounds value.toNat body]) rfl
      (fun waiting => by simp [step]) fun value => hbody.rounds value.toNat
  | .input targets => by
    rw [execute, ← pure_bind () fun _ => readTargets tracing targets]
    exact .of_step (fun _ => targets.map .read) rfl (fun waiting => by simp [step]) fun _ =>
      readTargets_carries targets
  | .assign .. | .increment .. | .output _ | .define .. | .missing | .token _ | .program _ => by
    apply Carries.of_single rfl
    intro waiting
    rw [step, execute, execute]
    all_goals simp

theorem executeBlock_carries
    (hcall : ∀ target callee args, Carries tracing [.perform (.call target callee args)]
      (execute tracing call (.call target callee args))) :
    ∀ body : List Statement, Carries tracing (body.map .perform) (executeBlock tracing call body)
  | [] => by
    rw [executeBlock]
    exact .nil
  | s :: rest => by
    rw [executeBlock]
    exact (execute_carries hcall s).append (executeBlock_carries hcall rest) (callers_performs rest)

end

theorem block_carries (tracing : Tracing) (depth : Nat) (body : List Statement) :
    Carries tracing (body.map .perform)
      (executeBlock tracing (callProgram tracing depth) body) := by
  induction depth generalizing body with
  | zero => exact executeBlock_carries call_carries_zero body
  | succ depth ih => exact executeBlock_carries (call_carries ih) body

/-- A run that is settled is a trail to the end of its agenda, or to a step that fails. -/
theorem run_trail {body : List Statement} {machine after : Machine} {r : Except Error (Option Int)}
    (h : run tracing body machine = (r, after)) (hsettled : Settled r) :
    (∃ value, r = .ok value ∧ Trail tracing ⟨machine, body.map .perform⟩ ⟨after, []⟩) ∨
      ∃ e, r = .error e ∧ Stumbles tracing ⟨machine, body.map .perform⟩ [] e after := by
  have hcarries := block_carries tracing (callDepth body machine.registry) body
  cases hblock : runBlock tracing body machine with
  | mk outcome final =>
    cases outcome with
    | ok _ =>
      rw [run, Action.bind_ok hblock] at h
      cases h
      have htrail := hcarries.ok [] hblock
      rw [List.append_nil] at htrail
      exact .inl ⟨_, rfl, htrail⟩
    | error e =>
      rw [run, Action.bind_error hblock] at h
      cases h
      have hstumbles := hcarries.error [] hblock (settled_error.mp hsettled)
      rw [List.append_nil] at hstumbles
      exact .inr ⟨e, rfl, hstumbles⟩

end Runs

end Machine

end LoopLanguage
