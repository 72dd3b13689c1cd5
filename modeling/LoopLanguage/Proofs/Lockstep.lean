import LoopLanguage.Proofs.Coupling
import LoopLanguage.Proofs.Enrollment

/-!
Two runs of the interpreter, statement by statement. A `Comparison` says of the few things that a run
does to its machine (print, trace, set a variable, look one up, take a line) that two runs which do
them keep a bond, and `Comparison.Accords` which statements stand for each other. Everything else that
a run does is put together from these, so that `execute_couples` holds of every comparison: statements
that stand for each other keep the bond.
-/

namespace LoopLanguage

/-- The messages that there are, each with its level. -/
inductive Message.Proper : Message → Prop
  | call (program : String) (bindings : List String) :
      Proper ⟨1, "call " ++ program ++ "(" ++ ", ".intercalate bindings ++ ")"⟩
  | result (program value : String) : Proper ⟨1, "return " ++ program ++ " -> " ++ value⟩
  | assignment (name value : String) : Proper ⟨2, name ++ " := " ++ value⟩
  | input (name digits : String) : Proper ⟨2, "input " ++ name ++ " = " ++ digits⟩
  | loop (name value : String) : Proper ⟨3, "loop " ++ name ++ " x" ++ value⟩

theorem Message.Proper.level_pos {message : Message} (h : message.Proper) : 1 ≤ message.level := by
  cases h <;> simp

theorem Message.Proper.level_le {message : Message} (h : message.Proper) : message.level ≤ 3 := by
  cases h <;> simp

namespace Machine

/-! ## The parts of a run -/

/-- The value of a variable, if it has one. -/
def fetch (name : Atom) : Action Machine (Option Int) :=
  ask fun machine => .ok (machine.store.get? name)

/-- Take the next line of input, which is for the variable. -/
def takeLine (name : Atom) : Action Machine String := fun machine =>
  match machine.input with
  | [] => (.error (Error.raised (.inputEnded name)), machine)
  | line :: input => (.ok line, { machine with input })

/-- What is done with a line that is read for a variable. -/
def acceptLine (tracing : Tracing) (name : Atom) (line : String) : Action Machine Unit :=
  let digits := Text.strip line.toList
  if !Text.isDecimal digits then
    Action.fail (Error.raised (.inputNotNumber name (String.ofList digits)))
  else do
    let value ← Action.ofExcept (Numeral.read digits)
    setVariable name value
    let shown ← Action.ofExcept name.shown
    emit tracing 2 ("input " ++ shown ++ " = " ++ String.ofList digits)

/-- What comes of an operand that has no value. -/
def noOperand (target operand : Atom) : Except Error Int := do
  let _ ← operand.shown
  let source ← (Statement.increment target operand).source
  .error (.undefinedVariable operand (some ("in `" ++ source ++ "`")))

/-- The programs with one more, unless there is one of that name. -/
def including (definition : Definition) (registry : Registry) : Registry :=
  if (registry.find? definition.name).isSome then registry else registry ++ [definition]

/-- What happens before the first round of a loop; the value is its count. -/
def enterLoop (tracing : Tracing) (count : Atom) : Action Machine Int := do
  let value ← loopCount count
  let name ← Action.ofExcept count.shown
  let shown ← Action.ofExcept (Numeral.write value)
  emit tracing 3 ("loop " ++ name ++ " x" ++ shown)
  return value

/-- The scope of a call and the program that it calls. -/
def opening (program : Atom) (args : List Atom) (machine : Machine) :
    Except Error (Store × Definition) := do
  let inner ← machine.store.enter machine.registry program args
  let definition ← machine.registry.lookup program
  return (inner, definition)

/-- Parameters and their values, as the message of a call shows them. -/
def bindings (params : List Atom) (inner : Store) : Except Error (List String) :=
  params.mapM fun param => do
    return (← param.shown) ++ "=" ++ (← Numeral.write ((inner.get? param).getD 0))

/-- What happens before the first statement of a called program; the values are its scope and the
program. -/
def enterCall (tracing : Tracing) (program : Atom) (args : List Atom) :
    Action Machine (Store × Definition) := do
  let machine ← Action.get
  let inner ← Action.ofExcept (machine.store.enter machine.registry program args)
  let definition ← Action.ofExcept (machine.registry.lookup program)
  traceCall tracing program definition.params inner
  return (inner, definition)

/-- A called program in its own scope; the value is its result. -/
def runBody (tracing : Tracing) (depth : Nat) (definition : Definition) : Action Machine Int := do
  executeBlock tracing (callProgram tracing depth) definition.body
  Action.ofExcept ((← Action.get).store.read Store.result)

section Parts

variable {tracing : Tracing} {machine : Machine}

theorem setVariable_of_key {name : Atom} (hkey : name.checkKey = .ok ()) (value : Int) :
    setVariable name value machine =
      (.ok (), { machine with store := machine.store.put name value }) := by
  rw [setVariable, Store.write, hkey]
  rfl

theorem setVariable_of_no_key {name : Atom} {e : Error} (hkey : name.checkKey = .error e)
    (value : Int) : setVariable name value machine = (.error e, machine) := by
  rw [setVariable, Store.write, hkey]
  rfl

theorem register_of_key {definition : Definition} (hkey : definition.name.checkKey = .ok ()) :
    register definition machine =
      (.ok (), { machine with registry := including definition machine.registry }) := by
  have hcontains : machine.registry.contains definition.name =
      .ok (machine.registry.find? definition.name).isSome := by
    rw [Registry.contains, hkey]
    rfl
  unfold register including
  rw [Action.get_bind, hcontains]
  cases hfound : (machine.registry.find? definition.name).isSome with
  | true => rfl
  | false =>
    rw [hfound] at hcontains
    show (_, { machine with registry := (Registry.define definition machine.registry).2 }) = _
    rw [Registry.define, hcontains]
    rfl

theorem register_of_no_key {definition : Definition} {e : Error}
    (hkey : definition.name.checkKey = .error e) :
    register definition machine = (.error e, machine) := by
  unfold register
  rw [Action.get_bind, Registry.contains, hkey]
  rfl

theorem forall_including {D : Definition → Prop} {definition : Definition} {registry : Registry}
    (h : ∀ d ∈ registry, D d) (hdefinition : D definition) :
    ∀ d ∈ including definition registry, D d := by
  unfold including
  split
  · exact h
  · exact List.forall_mem_append.mpr ⟨h, List.forall_mem_singleton.mpr hdefinition⟩

theorem ask_eq {α : Type} (q : Machine → Except Error α) :
    ask q = Action.get >>= fun machine => Action.ofExcept (q machine) := by
  funext machine
  rw [Action.get_bind, ask]
  cases q machine <;> rfl

theorem ofExcept_bind {α β : Type} (r : Except Error α) (f : α → Except Error β) :
    (Action.ofExcept (r >>= f) : Action Machine β) =
      Action.ofExcept r >>= fun a => Action.ofExcept (f a) := by
  cases r <;> rfl

theorem ask_read (name : Atom) : (ask fun machine => machine.store.read name) = (do
    Action.ofExcept name.checkKey
    match ← fetch name with
    | some value => return value
    | none => Action.fail (Error.raised (.undefinedVariable name none))) := by
  funext machine
  rw [ask_eq, Action.get_bind, Store.read, ofExcept_bind]
  cases name.checkKey with
  | error e => rfl
  | ok _ =>
    show Action.ofExcept (match machine.store.get? name with
        | some value => .ok value
        | none => .error (Error.raised (.undefinedVariable name none))) machine =
      (match machine.store.get? name with
        | some value => pure value
        | none => Action.fail (Error.raised (.undefinedVariable name none)) : Action Machine Int)
          machine
    cases machine.store.get? name <;> rfl

theorem operandValue_eq (target operand : Atom) : operandValue target operand = (do
    Action.ofExcept operand.checkKey
    match ← fetch operand with
    | some value => return value
    | none => Action.ofExcept (noOperand target operand)) := by
  simp only [noOperand, ofExcept_bind]
  rfl

theorem loopCount_eq (count : Atom) : loopCount count = (do
    Action.ofExcept count.checkKey
    match ← fetch count with
    | some value => return value
    | none => Action.fail (Error.raised (.undefinedCount count))) := rfl

theorem readTarget_of_string {t : Token} (h : t.kind = .string) :
    readTarget tracing t = (do print (← Action.ofExcept t.text.shown)) := by
  rw [readTarget, if_pos h]

theorem readTarget_of_ne_string {t : Token} (h : t.kind ≠ .string) :
    readTarget tracing t = takeLine t.text >>= acceptLine tracing t.text := by
  funext machine
  cases hinput : machine.input with
  | nil =>
    have htake : takeLine t.text machine = (.error (Error.raised (.inputEnded t.text)), machine) := by
      rw [takeLine, hinput]
    rw [Action.bind_error htake, readTarget, if_neg h, Action.get_bind, hinput]
    rfl
  | cons line rest =>
    have htake : takeLine t.text machine = (.ok line, { machine with input := rest }) := by
      rw [takeLine, hinput]
    rw [Action.bind_ok htake, readTarget, if_neg h, Action.get_bind, hinput]
    rfl

theorem traceCall_eq_bindings (program : Atom) (params : List Atom) (inner : Store) :
    traceCall tracing program params inner = (if tracing.level = 0 then return () else do
      let name ← Action.ofExcept program.shown
      let shown ← Action.ofExcept (bindings params inner)
      emit tracing 1 ("call " ++ name ++ "(" ++ ", ".intercalate shown ++ ")")) := rfl

theorem enterCall_eq (program : Atom) (args : List Atom) :
    enterCall tracing program args = (do
      let entry ← ask (opening program args)
      traceCall tracing program entry.2.params entry.1
      return entry) := by
  simp only [ask_eq, opening, ofExcept_bind, bind_assoc]
  rfl

theorem execute_output (call : Atom → List Atom → Action Machine Int) (items : List Token) :
    execute tracing call (.output items) = (do
      let line ← ask fun machine => Output.render machine.store items
      print (line ++ "\n")) := by
  rw [execute, ask_eq, bind_assoc]

theorem execute_loop (tracing : Tracing) (call : Atom → List Atom → Action Machine Int)
    (count : Atom) (body : List Statement) :
    execute tracing call (.loop count body) = (do
      Action.ofExcept (Statement.loop count body).checkReady
      let value ← enterLoop tracing count
      iterate (executeBlock tracing call body) value.toNat) := by
  simp only [execute, enterLoop, bind_assoc, pure_bind]

theorem execute_of_no_form (call : Atom → List Atom → Action Machine Int) {s : Statement}
    (h : s.form? = none) : execute tracing call s = Action.fail .unsupported := by
  cases s with
  | missing | token | program => rw [execute]
  | assign | increment | call | input | output | loop | define => cases h

theorem callProgram_succ (tracing : Tracing) (depth : Nat) (program : Atom) (args : List Atom) :
    callProgram tracing (depth + 1) program args = (do
      let (inner, definition) ← enterCall tracing program args
      let value ← inScope inner (runBody tracing depth definition)
      let name ← Action.ofExcept program.shown
      let shown ← Action.ofExcept (Numeral.write value)
      emit tracing 1 ("return " ++ name ++ " -> " ++ shown)
      return value) := by
  simp only [callProgram, enterCall, runBody, bind_assoc, pure_bind]

theorem runBody_eq (depth : Nat) (definition : Definition) :
    runBody tracing depth definition = (do
      executeBlock tracing (callProgram tracing depth) definition.body
      ask fun machine => machine.store.read Store.result) := by
  rw [ask_eq]
  rfl

theorem run_eq (body : List Statement) :
    run tracing body = (do runBlock tracing body; fetch Store.result) := rfl

end Parts

theorem bindings_settled (params : List Atom) (inner : Store) :
    Settled (bindings params inner) :=
  settled_mapM (fun param => param.shown_settled.bind fun name =>
    (Numeral.write_settled _).bind fun value => settled_ok (name ++ "=" ++ value)) params

theorem opening_settled (program : Atom) (args : List Atom) (machine : Machine) :
    Settled (opening program args machine) :=
  (Store.enter_settled _ _ _ _).bind fun _ => (Registry.lookup_settled _ _).bind fun _ =>
    settled_ok _

/-- A call enters the program that its name finds. -/
theorem opening_eq_ok {program : Atom} {args : List Atom} {machine : Machine}
    {entry : Store × Definition} (h : opening program args machine = .ok entry) :
    machine.store.enter machine.registry program args = .ok entry.1 ∧
      machine.registry.find? program = some entry.2 := by
  obtain ⟨inner, hinner, h⟩ := result_bind_eq_ok.mp h
  obtain ⟨definition, hlookup, h⟩ := result_bind_eq_ok.mp h
  cases h
  exact ⟨hinner, Registry.lookup_eq_ok hlookup⟩

theorem noOperand_ne_ok (target operand : Atom) (value : Int) :
    noOperand target operand ≠ .ok value := by
  intro h
  obtain ⟨_, _, h⟩ := result_bind_eq_ok.mp h
  obtain ⟨_, _, h⟩ := result_bind_eq_ok.mp h
  cases h

theorem noOperand_settled (target operand : Atom) : Settled (noOperand target operand) :=
  operand.shown_settled.bind fun _ =>
    (Statement.increment_source_settled target operand).bind fun _ => by simp

end Machine

open Machine

/-! ## Comparisons -/

/-- The same, if messages are. -/
def SameIf {α : Type} (plain : Prop) (a b : α) : Prop := plain → b = a

/-- What two runs that are compared do to their machines. -/
structure Comparison where
  bond : Bond
  tracing : Tracing
  tracing' : Tracing
  /-- Names that stand for each other. -/
  Name : Atom → Atom → Prop
  /-- Variables that are read. -/
  Read : Atom → Atom → Prop
  /-- Variables that are set. -/
  Write : Atom → Atom → Prop
  /-- Values that variables have while both runs go on. -/
  Value : Int → Prop
  /-- Values that statements assign. -/
  Assigned : Int → Prop
  /-- Both runs have the same messages. -/
  plain : Prop
  read_name : ∀ {a a'}, Read a a' → Name a a'
  write_name : ∀ {a a'}, Write a a' → Name a a'
  refl : ∀ {e : Error}, e ≠ .exhausted → e.category ≠ .undefinedVariable → bond.Errors e e
  key : ∀ {a a'}, Name a a' → Paired bond.Errors Eq a.checkKey a'.checkKey
  shown : ∀ {a a'}, Name a a' → Paired bond.Errors (SameIf plain) a.shown a'.shown
  undefined : ∀ {a a'}, Read a a' →
    bond.Errors (Error.raised (.undefinedVariable a none))
      (Error.raised (.undefinedVariable a' none))
  uncounted : ∀ {a a'}, Read a a' →
    bond.Errors (Error.raised (.undefinedCount a)) (Error.raised (.undefinedCount a'))
  unread : ∀ {a a'} (line : String), Write a a' →
    bond.Errors (Error.raised (.inputNotNumber a line)) (Error.raised (.inputNotNumber a' line))
  operand : ∀ {target target' a a'}, Write target target' → Read a a' →
    Paired bond.Errors (Same Value) (noOperand target a) (noOperand target' a')
  numeral : ∀ {digits : List Char} {n : Nat}, Numeral.read digits = .ok n → Value n
  print : ∀ text, bond.Couples Eq (Machine.print text) (Machine.print text)
  emit : ∀ {level text text'}, Message.Proper ⟨level, text⟩ → SameIf plain text text' →
    bond.Couples Eq (Machine.emit tracing level text) (Machine.emit tracing' level text')
  put : ∀ {a a' value}, Write a a' → Value value →
    bond.Couples Eq (setVariable a value) (setVariable a' value)
  assign : ∀ {a a' value}, Write a a' → Assigned value →
    bond.Couples Eq (Machine.assign tracing a value) (Machine.assign tracing' a' value)
  fetch : ∀ {a a'}, Read a a' →
    bond.Couples (Same fun value => ∀ v ∈ value, Value v) (Machine.fetch a) (Machine.fetch a')
  take : ∀ {a a'}, Write a a' → bond.Couples Eq (takeLine a) (takeLine a')

namespace Comparison

/-- Tokens that stand for each other as targets of `INPUT`: two prompts that are shown alike, or two
variables. -/
inductive Target (C : Comparison) (t t' : Token) : Prop
  | prompt (hkind : t.kind = .string) (hkind' : t'.kind = .string)
      (hshown : Paired C.bond.Errors Eq t.text.shown t'.text.shown)
  | name (hkind : t.kind ≠ .string) (hkind' : t'.kind ≠ .string)
      (hname : C.Write t.text t'.text)

/-- Statements that are related by `S` have the same form, names that stand for each other, and bodies
that are related again; what the other parts of them do is coupled. -/
structure Accords (C : Comparison) (call call' : Atom → List Atom → Action Machine Int)
    (S : Statement → Statement → Prop) : Prop where
  ready : ∀ {s s'}, S s s' → Paired C.bond.Errors Eq s.checkReady s'.checkReady
  succ : ∀ {value}, C.Value value → C.Assigned (value + 1)
  assign : ∀ {target value s'}, S (.assign target value) s' →
    ∃ target', s' = .assign target' value ∧ C.Write target target' ∧ C.Assigned value
  increment : ∀ {target operand s'}, S (.increment target operand) s' →
    ∃ target' operand', s' = .increment target' operand' ∧ C.Write target target' ∧
      C.Read operand operand'
  call : ∀ {target callee args s'}, S (.call target callee args) s' →
    ∃ target' callee' args', s' = .call target' callee' args' ∧ C.Write target target' ∧
      C.bond.Couples (Same C.Value) (call callee args) (call' callee' args')
  input : ∀ {targets s'}, S (.input targets) s' →
    ∃ targets', s' = .input targets' ∧ List.Forall₂ C.Target targets targets'
  output : ∀ {items s'}, S (.output items) s' →
    ∃ items', s' = .output items' ∧ C.bond.Couples Eq
      (ask fun m => Output.render m.store items) (ask fun m => Output.render m.store items')
  loop : ∀ {count body s'}, S (.loop count body) s' →
    ∃ count' body', s' = .loop count' body' ∧ C.Read count count' ∧ List.Forall₂ S body body'
  define : ∀ {name params body s'}, S (.define name params body) s' →
    ∃ name' params' body', s' = .define name' params' body' ∧
      C.bond.Couples Eq (register ⟨name, params, body⟩) (register ⟨name', params', body'⟩)
  other : ∀ {s s'}, S s s' → s.form? = none → s'.form? = none

section Steps

variable (C : Comparison) {a a' b b' : Atom}

theorem write_paired (value : Int) :
    Paired C.bond.Errors Eq (Numeral.write value) (Numeral.write value) := by
  apply (Paired.refl _).forget
  intro e he
  obtain rfl : e = .tooManyDigitsWritten := by
    unfold Numeral.write at he
    split at he <;> cases he
    rfl
  exact C.refl (by simp) (by decide)

theorem read_paired (digits : List Char) :
    Paired C.bond.Errors (Same fun n : Nat => C.Value n) (Numeral.read digits)
      (Numeral.read digits) := by
  apply (Paired.refl _).imp fun _ _ h => ⟨h.1, C.numeral h.2⟩
  intro e he
  obtain ⟨n, rfl⟩ : ∃ n, e = .tooManyDigitsRead n := by
    unfold Numeral.read at he
    split at he <;> cases he
    exact ⟨_, rfl⟩
  exact C.refl (by simp) (by simp [Error.category])

theorem operandValue_couples (ha : C.Write a a') (hb : C.Read b b') :
    C.bond.Couples (Same C.Value) (operandValue a b) (operandValue a' b') := by
  rw [operandValue_eq, operandValue_eq]
  apply (Bond.Couples.ofExcept (C.key (C.read_name hb))).bind
  intro _ _ _
  apply (C.fetch hb).bind
  rintro value _ ⟨rfl, hvalue⟩
  cases value with
  | some v => exact .pure ⟨rfl, hvalue v rfl⟩
  | none => exact .ofExcept (C.operand ha hb)

theorem loopCount_couples (ha : C.Read a a') :
    C.bond.Couples (Same C.Value) (loopCount a) (loopCount a') := by
  rw [loopCount_eq, loopCount_eq]
  apply (Bond.Couples.ofExcept (C.key (C.read_name ha))).bind
  intro _ _ _
  apply (C.fetch ha).bind
  rintro value _ ⟨rfl, hvalue⟩
  cases value with
  | some v => exact .pure ⟨rfl, hvalue v rfl⟩
  | none => exact .fail (C.uncounted ha)

theorem result_couples (ha : C.Read a a') :
    C.bond.Couples (Same C.Value) (ask fun m => m.store.read a) (ask fun m => m.store.read a') := by
  rw [ask_read, ask_read]
  apply (Bond.Couples.ofExcept (C.key (C.read_name ha))).bind
  intro _ _ _
  apply (C.fetch ha).bind
  rintro value _ ⟨rfl, hvalue⟩
  cases value with
  | some v => exact .pure ⟨rfl, hvalue v rfl⟩
  | none => exact .fail (C.undefined ha)

theorem enterLoop_couples (ha : C.Read a a') :
    C.bond.Couples (Same C.Value) (enterLoop C.tracing a) (enterLoop C.tracing' a') := by
  apply (C.loopCount_couples ha).bind
  rintro value _ ⟨rfl, hvalue⟩
  apply (Bond.Couples.ofExcept (C.shown (C.read_name ha))).bind
  intro name name' hname
  apply (Bond.Couples.ofExcept (C.write_paired value)).bind
  rintro shown _ rfl
  have hmessage : SameIf C.plain ("loop " ++ name ++ " x" ++ shown)
      ("loop " ++ name' ++ " x" ++ shown) := fun h => by rw [hname h]
  apply (C.emit (.loop name shown) hmessage).bind
  intro _ _ _
  exact .pure ⟨rfl, hvalue⟩

theorem acceptLine_couples (ha : C.Write a a') (line : String) :
    C.bond.Couples Eq (acceptLine C.tracing a line) (acceptLine C.tracing' a' line) := by
  unfold acceptLine
  dsimp only
  split
  · exact .fail (C.unread _ ha)
  · apply (Bond.Couples.ofExcept (C.read_paired _)).bind
    rintro value _ ⟨rfl, hvalue⟩
    apply (C.put ha hvalue).bind
    intro _ _ _
    apply (Bond.Couples.ofExcept (C.shown (C.write_name ha))).bind
    intro name name' hname
    exact C.emit (.input name _) fun h => by rw [hname h]

theorem readTarget_couples {t t' : Token} (h : C.Target t t') :
    C.bond.Couples Eq (readTarget C.tracing t) (readTarget C.tracing' t') := by
  cases h with
  | prompt hkind hkind' hshown =>
    rw [readTarget_of_string hkind, readTarget_of_string hkind']
    apply (Bond.Couples.ofExcept hshown).bind
    rintro text _ rfl
    exact C.print text
  | name hkind hkind' hname =>
    rw [readTarget_of_ne_string hkind, readTarget_of_ne_string hkind']
    apply (C.take hname).bind
    rintro line _ rfl
    exact C.acceptLine_couples hname line

theorem readTargets_couples {targets targets' : List Token}
    (h : List.Forall₂ C.Target targets targets') :
    C.bond.Couples Eq (readTargets C.tracing targets) (readTargets C.tracing' targets') := by
  induction h with
  | nil => exact .pure rfl
  | cons ht _ ih => exact (C.readTarget_couples ht).bind fun _ _ _ => ih

/-- The message of a call, if both runs trace alike. -/
theorem traceCall_couples (htracing : C.tracing' = C.tracing) (ha : C.Name a a')
    {params params' : List Atom} {inner inner' : Store}
    (hbindings : Paired C.bond.Errors (SameIf C.plain) (bindings params inner)
      (bindings params' inner')) :
    C.bond.Couples Eq (traceCall C.tracing a params inner)
      (traceCall C.tracing' a' params' inner') := by
  rw [traceCall_eq_bindings, traceCall_eq_bindings, htracing]
  split
  · exact .pure rfl
  · apply (Bond.Couples.ofExcept (C.shown ha)).bind
    intro name name' hname
    apply (Bond.Couples.ofExcept hbindings).bind
    intro shown shown' hshown
    have hmessage : SameIf C.plain ("call " ++ name ++ "(" ++ ", ".intercalate shown ++ ")")
        ("call " ++ name' ++ "(" ++ ", ".intercalate shown' ++ ")") :=
      fun h => by rw [hname h, hshown h]
    have hemit := C.emit (.call name shown) hmessage
    rwa [htracing] at hemit

theorem enterCall_couples {args args' : List Atom}
    {Entry : Store × Definition → Store × Definition → Prop}
    (hopening : C.bond.Couples Entry (ask (opening a args)) (ask (opening a' args')))
    (htrace : ∀ entry entry', Entry entry entry' →
      C.bond.Couples Eq (traceCall C.tracing a entry.2.params entry.1)
        (traceCall C.tracing' a' entry'.2.params entry'.1)) :
    C.bond.Couples Entry (enterCall C.tracing a args) (enterCall C.tracing' a' args') := by
  rw [enterCall_eq, enterCall_eq]
  apply hopening.bind
  intro entry entry' hentry
  apply (htrace entry entry' hentry).bind
  intro _ _ _
  exact .pure hentry

end Steps

section Runs

variable {C : Comparison} {call call' : Atom → List Atom → Action Machine Int}
  {S : Statement → Statement → Prop}

mutual

theorem execute_couples (hS : C.Accords call call' S) : ∀ (s : Statement) {s' : Statement},
    S s s' → C.bond.Couples Eq (execute C.tracing call s) (execute C.tracing' call' s')
  | .assign target value, s', h => by
    have hready := hS.ready h
    obtain ⟨target', rfl, htarget, hvalue⟩ := hS.assign h
    rw [execute, execute]
    exact (Bond.Couples.ofExcept hready).bind fun _ _ _ => C.assign htarget hvalue
  | .increment target operand, s', h => by
    have hready := hS.ready h
    obtain ⟨target', operand', rfl, htarget, hoperand⟩ := hS.increment h
    rw [execute, execute]
    apply (Bond.Couples.ofExcept hready).bind
    intro _ _ _
    apply (C.operandValue_couples htarget hoperand).bind
    rintro value _ ⟨rfl, hvalue⟩
    exact C.assign htarget (hS.succ hvalue)
  | .call target callee args, s', h => by
    have hready := hS.ready h
    obtain ⟨target', callee', args', rfl, htarget, hcall⟩ := hS.call h
    rw [execute, execute]
    apply (Bond.Couples.ofExcept hready).bind
    intro _ _ _
    apply hcall.bind
    rintro value _ ⟨rfl, hvalue⟩
    exact C.put htarget hvalue
  | .input targets, s', h => by
    obtain ⟨targets', rfl, htargets⟩ := hS.input h
    rw [execute, execute]
    exact C.readTargets_couples htargets
  | .output items, s', h => by
    obtain ⟨items', rfl, hrender⟩ := hS.output h
    rw [execute_output, execute_output]
    apply hrender.bind
    rintro line _ rfl
    exact C.print _
  | .loop count body, s', h => by
    have hready := hS.ready h
    obtain ⟨count', body', rfl, hcount, hbody⟩ := hS.loop h
    have hround := executeBlock_couples hS body hbody
    rw [execute_loop, execute_loop]
    apply (Bond.Couples.ofExcept hready).bind
    intro _ _ _
    apply (C.enterLoop_couples hcount).bind
    rintro value _ ⟨rfl, _⟩
    exact hround.iterate value.toNat
  | .define name params body, s', h => by
    have hready := hS.ready h
    obtain ⟨name', params', body', rfl, hregister⟩ := hS.define h
    rw [execute, execute]
    exact (Bond.Couples.ofExcept hready).bind fun _ _ _ => hregister
  | .missing, s', h | .token _, s', h | .program _, s', h => by
    have hform := hS.other h rfl
    rw [execute, execute_of_no_form call' hform]
    exact .fail (C.refl (by simp) (by decide))

theorem executeBlock_couples (hS : C.Accords call call' S) :
    ∀ (body : List Statement) {body' : List Statement}, List.Forall₂ S body body' →
      C.bond.Couples Eq (executeBlock C.tracing call body) (executeBlock C.tracing' call' body')
  | [], _, .nil => by
    rw [executeBlock, executeBlock]
    exact .pure rfl
  | s :: rest, _, .cons hs hrest => by
    have hfirst := execute_couples hS s hs
    have hmore := executeBlock_couples hS rest hrest
    rw [executeBlock, executeBlock]
    exact hfirst.bind fun _ _ _ => hmore

end

/-- Two runs go equally deep. -/
theorem runBlock_couples {B : Bond} {tracing tracing' : Tracing} {body body' : List Statement}
    (hblock : ∀ depth, B.Couples Eq (executeBlock tracing (callProgram tracing depth) body)
      (executeBlock tracing' (callProgram tracing' depth) body'))
    (hdepth : ∀ m m', B.Between m m' → callDepth body' m'.registry = callDepth body m.registry) :
    B.Couples Eq (runBlock tracing body) (runBlock tracing' body') := by
  constructor
  · intro m m' hm
    unfold runBlock
    rw [hdepth m m' hm]
    exact (hblock _).ends hm
  · intro e m m' hm
    exact (hblock (callDepth body' m'.registry)).onward hm

/-- A called program gives its result, if the result variable stands for itself. -/
theorem runBody_couples {depth depth' : Nat} {d d' : Definition}
    (hresult : C.Read Store.result Store.result)
    (hbody : C.bond.Couples Eq (executeBlock C.tracing (callProgram C.tracing depth) d.body)
      (executeBlock C.tracing' (callProgram C.tracing' depth') d'.body)) :
    C.bond.Couples (Same C.Value) (runBody C.tracing depth d) (runBody C.tracing' depth' d') := by
  rw [runBody_eq, runBody_eq]
  exact hbody.bind fun _ _ _ => C.result_couples hresult

/-- Calls are coupled if both enter a program and what they enter is coupled. -/
theorem callProgram_couples {a a' : Atom} {args args' : List Atom} {depth depth' : Nat}
    {Entry : Store × Definition → Store × Definition → Prop} (ha : C.Name a a')
    (henter : C.bond.Couples Entry (enterCall C.tracing a args) (enterCall C.tracing' a' args'))
    (hbody : ∀ entry entry', Entry entry entry' → C.bond.Couples (Same C.Value)
      (inScope entry.1 (runBody C.tracing depth entry.2))
      (inScope entry'.1 (runBody C.tracing' depth' entry'.2))) :
    C.bond.Couples (Same C.Value) (callProgram C.tracing (depth + 1) a args)
      (callProgram C.tracing' (depth' + 1) a' args') := by
  rw [callProgram_succ, callProgram_succ]
  apply henter.bind
  intro entry entry' hentry
  apply (hbody entry entry' hentry).bind
  rintro value _ ⟨rfl, hvalue⟩
  apply (Bond.Couples.ofExcept (C.shown ha)).bind
  intro name name' hname
  apply (Bond.Couples.ofExcept (C.write_paired value)).bind
  rintro shown _ rfl
  have hmessage : SameIf C.plain ("return " ++ name ++ " -> " ++ shown)
      ("return " ++ name' ++ " -> " ++ shown) := fun h => by rw [hname h]
  apply (C.emit (.result name shown) hmessage).bind
  intro _ _ _
  exact .pure ⟨rfl, hvalue⟩

end Runs

end Comparison

end LoopLanguage
