import LoopLanguage.Proofs.Canonical
import LoopLanguage.Proofs.Alignment

/-!
Programs without the places of their tokens. Places are only there for messages about sources:
what a program enrolls, and every run of it, is the same with and without them. The machine of a run
without places is the other machine without places, and errors go together if they are reported alike.
-/

namespace LoopLanguage

/-- A token that has lost its place, as documents give it. -/
def Token.placeless (t : Token) : Token := ⟨t.kind, t.text, ⟨0, 0⟩, false⟩

namespace Statement

mutual

def placeless : Statement → Statement
  | assign target value => assign target value
  | increment target operand => increment target operand
  | call target callee args => call target callee args
  | input targets => input (targets.map Token.placeless)
  | output items => output (items.map Token.placeless)
  | loop count body => loop count (placelessAll body)
  | define name params body => define name params (placelessAll body)
  | missing => missing
  | token t => token t.placeless
  | program body => program (placelessAll body)

def placelessAll : List Statement → List Statement
  | [] => []
  | s :: rest => placeless s :: placelessAll rest

end

end Statement

open Statement (placelessAll)

def Definition.placeless (d : Definition) : Definition := { d with body := placelessAll d.body }

def Registry.placeless (registry : Registry) : Registry := registry.map Definition.placeless

/-- The same programs in the same order, the places of tokens aside. -/
def Registry.same (registry other : Registry) : Prop :=
  List.Forall₂ (fun d e => d.name = e.name ∧ d.params = e.params ∧
    Statement.sameBody d.body e.body = true) registry other

theorem Registry.find?_placeless (registry : Registry) (name : Atom) :
    registry.placeless.find? name = (registry.find? name).map Definition.placeless := by
  unfold Registry.find? Registry.placeless
  rw [List.find?_map]
  rfl

theorem Registry.lookup_placeless (registry : Registry) (name : Atom) :
    registry.placeless.lookup name = (registry.lookup name).map Definition.placeless := by
  simp only [Registry.lookup, Registry.find?_placeless]
  cases name.checkKey with
  | error e => rfl
  | ok _ => cases registry.find? name <;> rfl

namespace Statement

mutual

theorem enroll_placeless : ∀ (s : Statement) (registry : Registry),
    s.placeless.enroll registry.placeless = (s.enroll registry).map Registry.placeless
  | .call _ callee args, registry => by
    simp only [placeless, enroll, Registry.find?_placeless]
    cases registry.find? callee with
    | none => rfl
    | some d =>
      simp only [Option.map_some]
      split <;> simp_all [Definition.placeless]
  | .loop _ body, registry => enrollAll_placeless body registry
  | .program body, registry => enrollAll_placeless body registry
  | .define name params body, registry => by
    simp only [placeless, enroll]
    rw [enrollAll_placeless body registry]
    cases enrollAll body registry with
    | none => rfl
    | some inner =>
      simp only [Option.map_some, Registry.find?_placeless, Option.isSome_map]
      split
      · rfl
      · simp [Registry.placeless, Definition.placeless]
  | .assign .., _ | .increment .., _ | .input _, _ | .output _, _ | .missing, _
  | .token _, _ => rfl

theorem enrollAll_placeless : ∀ (body : List Statement) (registry : Registry),
    enrollAll (placelessAll body) registry.placeless =
      (enrollAll body registry).map Registry.placeless
  | [], _ => rfl
  | s :: rest, registry => by
    simp only [placelessAll, enrollAll]
    rw [enroll_placeless s registry]
    cases enroll s registry with
    | none => rfl
    | some next => exact enrollAll_placeless rest next

end

theorem sameTokens_placeless (tokens : List Token) :
    sameTokens (tokens.map Token.placeless) tokens = true := by
  induction tokens with
  | nil => rfl
  | cons t tokens ih => simp [sameTokens, Token.same, Token.placeless, ih]

mutual

theorem same_placeless : ∀ s : Statement, same s.placeless s = true
  | .input targets => sameTokens_placeless targets
  | .output items => sameTokens_placeless items
  | .loop _ body => by simp [placeless, same, sameBody_placeless body]
  | .define _ _ body => by simp [placeless, same, sameBody_placeless body]
  | .program body => sameBody_placeless body
  | .assign .. | .increment .. | .call .. | .missing => by simp [placeless, same]
  | .token _ => by simp [placeless, same, Token.same, Token.placeless]

theorem sameBody_placeless : ∀ body : List Statement, sameBody (placelessAll body) body = true
  | [] => rfl
  | s :: rest => by simp [placelessAll, sameBody, same_placeless s, sameBody_placeless rest]

end

end Statement

theorem Registry.same_placeless (registry : Registry) :
    Registry.same registry.placeless registry := by
  unfold Registry.same Registry.placeless
  rw [List.forall₂_map_left_iff, List.forall₂_same]
  exact fun d _ => ⟨rfl, rfl, Statement.sameBody_placeless d.body⟩

/-! ### Runs -/

theorem Store.enter_placeless (store : Store) (registry : Registry) (program : Atom)
    (args : List Atom) : store.enter registry.placeless program args =
      store.enter registry program args := by
  unfold Store.enter
  rw [Registry.lookup_placeless]
  cases registry.lookup program <;> rfl

/-- What is told about an error: which part of the work went wrong, and the message. -/
def Error.report (e : Error) : Error.Category × String := (e.category, e.message)

/-- Two results are reported in the same way. -/
def ReportedAlike {α : Type} (r r' : Except Error α) : Prop :=
  r'.mapError Error.report = r.mapError Error.report

/-- Two errors are reported in the same way. -/
def Error.Alike (e e' : Error) : Prop := e'.report = e.report

theorem ReportedAlike.of_paired {α : Type} {r r' : Except Error α}
    (h : Paired Error.Alike Eq r r') : ReportedAlike r r' := by
  cases h with
  | ok h => rw [h, ReportedAlike]
  | error h => exact congrArg Except.error h

theorem Paired.alike {α : Type} (r : Except Error α) : Paired Error.Alike Eq r r := by
  apply (Paired.refl _).forget
  exact fun _ _ => rfl

theorem Error.report_raised_placeless (t : Token) :
    (Error.raised (.notNumberKind t.placeless)).report =
      (Error.raised (.notNumberKind t)).report := by
  unfold Error.raised
  have hshown : Error.showAll (.notNumberKind t.placeless) = Error.showAll (.notNumberKind t) := rfl
  rw [hshown]
  split <;> rfl

theorem Token.value_placeless (t : Token) : Paired Error.Alike Eq t.value t.placeless.value := by
  unfold Token.value
  have hkind : t.placeless.kind = t.kind := rfl
  have htext : t.placeless.text = t.text := rfl
  rw [hkind, htext]
  split
  · exact .error (Error.report_raised_placeless t)
  · split
    · split
      · exact .alike _
      · exact .error rfl
    · exact .error rfl
    · exact .error rfl

namespace Output

theorem itemText_placeless (store : Store) (t : Token) :
    Paired Error.Alike Eq (itemText store t) (itemText store t.placeless) := by
  unfold itemText
  have hkind : t.placeless.kind = t.kind := rfl
  rw [hkind]
  split
  · apply t.value_placeless.bind
    rintro value _ rfl
    exact .alike _
  · exact .alike _

theorem parts_placeless (store : Store) (items : List Token) (afterString : Bool) :
    Paired Error.Alike Eq (parts store afterString items)
      (parts store afterString (items.map Token.placeless)) := by
  induction items generalizing afterString with
  | nil => exact .alike _
  | cons t items ih =>
    have hkind : t.placeless.kind = t.kind := rfl
    rw [List.map_cons, parts, parts, hkind]
    split
    · apply (ih true).bind
      rintro rest _ rfl
      exact .alike _
    · apply (itemText_placeless store t).bind
      rintro text _ rfl
      apply (ih false).bind
      rintro rest _ rfl
      exact .alike _

theorem render_placeless (store : Store) (items : List Token) :
    Paired Error.Alike Eq (render store items) (render store (items.map Token.placeless)) := by
  apply (parts_placeless store items true).bind
  rintro pieces _ rfl
  exact .alike _

end Output

namespace Machine

/-- The machine with the programs that have lost their places. -/
def placeless (m : Machine) : Machine := { m with registry := m.registry.placeless }

/-- From the machine without places the second step does what the first one does from `m`. -/
def Mirrors {α : Type} (act act' : Action Machine α) (m : Machine) : Prop :=
  ReportedAlike (act m).1 (act' m.placeless).1 ∧ (act' m.placeless).2 = (act m).2.placeless

def placelessBond : Bond where
  Between m m' := m' = m.placeless
  Broken m m' := m' = m.placeless
  Errors := Error.Alike
  broken := id

theorem placeless_together : placelessBond.Together := fun _ _ _ => id

theorem mirrors_of_couples {α : Type} {act act' : Action Machine α}
    (h : placelessBond.Couples Eq act act') (m : Machine) : Mirrors act act' m := by
  have hends := h.ends (rfl : placelessBond.Between m m.placeless)
  obtain ⟨hresult, hmachine⟩ := hends.paired placeless_together
  exact ⟨.of_paired hresult, hmachine⟩

theorem modify_placeless {f g : Machine → Machine} (h : ∀ m, g m.placeless = (f m).placeless) :
    placelessBond.Couples Eq (Action.modify f) (Action.modify g) := by
  apply Bond.Couples.modify_together placeless_together
  rintro m _ rfl
  exact h m

theorem ask_placeless {α β : Type} {V : α → β → Prop} {q : Machine → Except Error α}
    {q' : Machine → Except Error β}
    (h : ∀ m, Paired placelessBond.Errors V (q m) (q' m.placeless)) :
    placelessBond.Couples V (ask q) (ask q') := by
  apply Bond.Couples.ask_together placeless_together
  rintro m _ rfl
  exact h m

theorem setVariable_placeless (name : Atom) (value : Int) :
    placelessBond.Couples Eq (setVariable name value) (setVariable name value) :=
  .setVariable (fun _ => rfl) (modify_placeless fun _ => rfl)

theorem emit_placeless (tracing : Tracing) (level : Nat) (text : String) :
    placelessBond.Couples Eq (emit tracing level text) (emit tracing level text) :=
  .emit (fun _ => modify_placeless fun _ => rfl) (fun _ => modify_placeless fun _ => rfl) level text

def placelessly (tracing : Tracing) : Alignment where
  bond := placelessBond
  tracing := tracing
  tracing' := tracing
  Read _ := True
  Write _ := True
  Value _ := True
  Assigned _ := True
  refl _ := rfl
  numeral _ := trivial
  print _ := modify_placeless fun _ => rfl
  emit _ := emit_placeless tracing _ _
  put _ _ := setVariable_placeless _ _
  assign _ _ := .assign (fun _ => rfl) (setVariable_placeless _ _) fun _ => emit_placeless tracing _ _
  fetch _ := by
    apply Bond.Couples.fetch placeless_together
    · rintro m _ rfl
      rfl
    · exact fun _ _ _ _ _ => trivial
  take _ := by
    apply Bond.Couples.takeLine placeless_together fun _ => rfl
    · rintro m _ rfl
      rfl
    · rintro m _ input rfl
      rfl

end Machine

namespace Statement

theorem checkReady_placeless (s : Statement) : s.placeless.checkReady = s.checkReady := by
  cases s <;> rfl

theorem forall₂_placelessAll (body : List Statement) :
    List.Forall₂ (fun s s' => s' = s.placeless) body (placelessAll body) := by
  induction body with
  | nil => exact .nil
  | cons s rest ih => exact .cons rfl ih

end Statement

theorem Machine.including_placeless (d : Definition) (registry : Registry) :
    Machine.including d.placeless registry.placeless =
      (Machine.including d registry).placeless := by
  have hname : d.placeless.name = d.name := rfl
  unfold Machine.including
  rw [hname, Registry.find?_placeless, Option.isSome_map]
  split
  · rfl
  · simp [Registry.placeless]

namespace Machine

theorem register_placeless (d : Definition) :
    placelessBond.Couples Eq (register d) (register d.placeless) := by
  apply @Bond.Couples.register _ d d.placeless rfl fun _ => rfl
  apply modify_placeless
  intro m
  exact congrArg (fun registry => { m with registry }) (including_placeless d m.registry)

section Execution

variable {tracing : Tracing} {call call' : Atom → List Atom → Action Machine Int}

/-- A statement without places stands for the statement, if calls do. -/
theorem accords_placeless (hcall : ∀ callee args,
      placelessBond.Couples (Same fun _ => True) (call callee args) (call' callee args)) :
    (placelessly tracing).comparison.Accords call call' fun s s' => s' = s.placeless where
  ready := by
    rintro s _ rfl
    rw [Statement.checkReady_placeless]
    exact ((placelessly tracing).paired s.checkReady_settled).forget
  succ _ := trivial
  assign := by
    rintro target value _ rfl
    exact ⟨target, rfl, ⟨rfl, trivial⟩, trivial⟩
  increment := by
    rintro target operand _ rfl
    exact ⟨target, operand, rfl, ⟨rfl, trivial⟩, rfl, trivial⟩
  call := by
    rintro target callee args _ rfl
    exact ⟨target, callee, args, rfl, ⟨rfl, trivial⟩, hcall callee args⟩
  input := by
    rintro targets _ rfl
    refine ⟨_, rfl, ?_⟩
    rw [List.forall₂_map_right_iff, List.forall₂_same]
    exact fun t _ => (placelessly tracing).target rfl rfl fun _ => trivial
  output := by
    rintro items _ rfl
    exact ⟨_, rfl, ask_placeless fun m => Output.render_placeless m.store items⟩
  loop := by
    rintro count body _ rfl
    exact ⟨count, _, rfl, ⟨rfl, trivial⟩, Statement.forall₂_placelessAll body⟩
  define := by
    rintro name params body _ rfl
    exact ⟨name, params, _, rfl, register_placeless ⟨name, params, body⟩⟩
  other := by
    rintro s _ rfl h
    cases s with
    | missing | token | program => rfl
    | assign | increment | call | input | output | loop | define => cases h

theorem executeBlock_placeless (hcall : ∀ callee args,
      placelessBond.Couples (Same fun _ => True) (call callee args) (call' callee args))
    (body : List Statement) : placelessBond.Couples Eq (executeBlock tracing call body)
      (executeBlock tracing call' (placelessAll body)) :=
  @Comparison.executeBlock_couples (placelessly tracing).comparison _ _ _ (accords_placeless hcall)
    body _ (Statement.forall₂_placelessAll body)

/-- The program that a call enters has lost its places, its scope is the same. -/
theorem opening_placeless (program : Atom) (args : List Atom) (m : Machine) :
    opening program args m.placeless =
      (opening program args m).map fun entry => (entry.1, entry.2.placeless) := by
  have henter : m.placeless.store.enter m.placeless.registry program args =
      m.store.enter m.registry program args :=
    Store.enter_placeless m.store m.registry program args
  have hlookup : m.placeless.registry.lookup program =
      (m.registry.lookup program).map Definition.placeless :=
    Registry.lookup_placeless m.registry program
  unfold opening
  rw [henter, hlookup]
  cases m.store.enter m.registry program args with
  | error e => rfl
  | ok inner => cases m.registry.lookup program <;> rfl

theorem callProgram_placeless (tracing : Tracing) (depth : Nat) (program : Atom)
    (args : List Atom) : placelessBond.Couples (Same fun _ => True)
      (callProgram tracing depth program args) (callProgram tracing depth program args) := by
  induction depth generalizing program args with
  | zero => exact .fail rfl
  | succ depth ih =>
    have hopening : placelessBond.Couples
        (fun entry entry' : Store × Definition => entry' = (entry.1, entry.2.placeless))
        (ask (opening program args)) (ask (opening program args)) := by
      apply ask_placeless
      intro m
      rw [opening_placeless]
      cases opening program args m with
      | ok entry => exact .ok rfl
      | error e => exact .error rfl
    apply Alignment.callProgram_couples (A := placelessly tracing) rfl hopening
    · rintro entry _ rfl
      exact ⟨rfl, rfl⟩
    · rintro ⟨inner, d⟩ _ rfl
      have hbody : placelessBond.Couples Eq (executeBlock tracing (callProgram tracing depth) d.body)
          (executeBlock tracing (callProgram tracing depth) d.placeless.body) :=
        executeBlock_placeless ih d.body
      apply Bond.Couples.inScope _
        (Alignment.runBody_couples (A := placelessly tracing) trivial hbody)
      apply Bond.Nests.of_together placeless_together placeless_together
      · exact id
      · rintro m _ rfl
        rfl
      · rintro m _ n _ rfl rfl
        rfl
      · rintro m _ n _ rfl rfl
        rfl

end Execution

mutual

theorem definitionCount_placeless : ∀ s : Statement,
    definitionCount s.placeless = definitionCount s
  | .loop _ body => definitionCounts_placeless body
  | .define _ _ body => congrArg (· + 1) (definitionCounts_placeless body)
  | .program body => definitionCounts_placeless body
  | .assign .. | .increment .. | .call .. | .input _ | .output _ | .missing | .token _ => rfl

theorem definitionCounts_placeless : ∀ body : List Statement,
    definitionCounts (placelessAll body) = definitionCounts body
  | [] => rfl
  | s :: rest => by
    simp only [placelessAll, definitionCounts]
    rw [definitionCount_placeless s, definitionCounts_placeless rest]

end

theorem callDepth_placeless (body : List Statement) (registry : Registry) :
    callDepth (placelessAll body) registry.placeless = callDepth body registry := by
  unfold callDepth Registry.placeless
  simp only [definitionCounts_placeless, List.foldr_map, Definition.placeless]

/-- A program without places runs as the program does. -/
theorem run_mirrors (tracing : Tracing) (body : List Statement) (m : Machine) :
    Mirrors (run tracing body) (run tracing (placelessAll body)) m := by
  apply mirrors_of_couples
  rw [run_eq, run_eq]
  have hblock : placelessBond.Couples Eq (runBlock tracing body)
      (runBlock tracing (placelessAll body)) := by
    apply Comparison.runBlock_couples
    · exact fun depth => executeBlock_placeless (callProgram_placeless tracing depth) body
    · rintro m _ rfl
      exact callDepth_placeless body m.registry
  apply hblock.bind
  intro _ _ _
  exact ((placelessly tracing).fetch trivial).forget

end Machine

end LoopLanguage
