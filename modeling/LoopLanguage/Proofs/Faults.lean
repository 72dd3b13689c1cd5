import LoopLanguage.Proofs.Termination

/-!
What can go wrong in a run of a parsed program. `Machine.Fault` lists the ways in which a single
statement fails, and `Machine.Reaches` says which statements a run comes to and in which state. A
run then fails only by a fault of a statement that it reaches: names that are missing, calls that
do not fit and values that cannot be shown were all ruled out when the source was parsed, and no
variable ever holds a value that cannot be written. Which statement fails depends on how far the run
has come, so this is told from each machine on (`Action.Ensures`), not as a bond between two runs.
-/

namespace LoopLanguage

open LoopLanguage.Action (Ensures)

theorem Atom.shown_of_isWritable {a : Atom} (h : a.isWritable) : a.shown = .ok a.display :=
  if_pos h

namespace Atom.IsIdentifier

theorem isWritable {a : Atom} (h : a.IsIdentifier) : a.isWritable = true := by
  obtain ⟨s, rfl⟩ := h.exists_text
  exact isWritable_text s

theorem checkKey {a : Atom} (h : a.IsIdentifier) : a.checkKey = .ok () := by
  obtain ⟨s, rfl⟩ := h.exists_text
  rfl

theorem shown {a : Atom} (h : a.IsIdentifier) : a.shown = .ok a.display :=
  shown_of_isWritable h.isWritable

/-- An error about an identifier can always be shown. -/
theorem raised_inputEnded {a : Atom} (h : a.IsIdentifier) :
    Error.raised (.inputEnded a) = .inputEnded a := by
  simp [Error.raised, Error.showAll, h.shown, bind, Except.bind, pure, Except.pure]

theorem raised_inputNotNumber {a : Atom} (h : a.IsIdentifier) (line : String) :
    Error.raised (.inputNotNumber a line) = .inputNotNumber a line := by
  simp [Error.raised, Error.showAll, h.shown, bind, Except.bind, pure, Except.pure]

theorem raised_undefinedCount {a : Atom} (h : a.IsIdentifier) :
    Error.raised (.undefinedCount a) = .undefinedCount a := by
  simp [Error.raised, Error.showAll, h.shown, bind, Except.bind, pure, Except.pure]

end Atom.IsIdentifier

/-- Every variable that has a value has one with the property. -/
def Store.Holds (P : Int → Prop) (store : Store) : Prop :=
  ∀ name value, store.get? name = some value → P value

namespace Store

section Holds

variable {P : Int → Prop} {store inner : Store}

theorem holds_nil : Store.Holds P [] := by
  intro name value h
  cases h

theorem Holds.put (h : store.Holds P) (name : Atom) {value : Int} (hvalue : P value) :
    (store.put name value).Holds P := by
  intro other found hfound
  rw [get?_put] at hfound
  split at hfound
  · cases hfound
    exact hvalue
  · exact h other found hfound

theorem Holds.read (h : store.Holds P) {name : Atom} {value : Int}
    (hread : store.read name = .ok value) : P value := by
  obtain ⟨_, _, hread⟩ := result_bind_eq_ok.mp hread
  split at hread
  · next hfound =>
    cases hread
    exact h name value hfound
  · cases hread

/-- Values go over from the arguments to the parameters. -/
theorem Holds.bind (h : store.Holds P) {program : Atom} {bound : Store} (hinner : inner.Holds P)
    {params args : List Atom} (hbind : store.bind program inner params args = .ok bound) :
    bound.Holds P := by
  induction params generalizing inner args with
  | nil =>
    cases hbind
    exact hinner
  | cons param params ih =>
    cases args with
    | nil =>
      cases hbind
      exact hinner
    | cons arg args =>
      rw [Store.bind] at hbind
      obtain ⟨_, _, hbind⟩ := result_bind_eq_ok.mp hbind
      split at hbind
      · obtain ⟨_, _, hbind⟩ := result_bind_eq_ok.mp hbind
        obtain ⟨_, _, hbind⟩ := result_bind_eq_ok.mp hbind
        cases hbind
      · next value hvalue =>
        obtain ⟨next, hnext, hbind⟩ := result_bind_eq_ok.mp hbind
        obtain ⟨_, _, hput⟩ := result_bind_eq_ok.mp hnext
        cases hput
        exact ih (hinner.put param (h arg value hvalue)) hbind

theorem Holds.enter (h : store.Holds P) (hzero : P 0) {registry : Registry} {program : Atom}
    {args : List Atom} (henter : store.enter registry program args = .ok inner) :
    inner.Holds P := by
  obtain ⟨d, _, henter⟩ := result_bind_eq_ok.mp henter
  split at henter
  · cases henter
  · obtain ⟨bound, hbound, henter⟩ := result_bind_eq_ok.mp henter
    have hholds := h.bind holds_nil hbound
    cases henter
    split
    · exact hholds
    · exact hholds.put result hzero

end Holds

theorem isSome_put {store : Store} (name : Atom) (value : Int) {other : Atom}
    (h : (store.get? other).isSome) : ((store.put name value).get? other).isSome := by
  rw [get?_put]
  split
  · rfl
  · exact h

theorem write_eq {name : Atom} (hname : name.IsIdentifier) (store : Store) (value : Int) :
    store.write name value = .ok (store.put name value) := by
  rw [Store.write, hname.checkKey]
  rfl

/-- Binding parameters only fails for an argument that has no value. -/
theorem bind_cases {store : Store} (hstore : store.Holds Numeral.Short) {program : Atom}
    (hprogram : program.IsIdentifier) {params args : List Atom}
    (hparams : ∀ param ∈ params, param.IsIdentifier) (hargs : ∀ arg ∈ args, arg.IsIdentifier)
    {inner : Store} (hinner : inner.Holds Numeral.Short) :
    (∃ bound, store.bind program inner params args = .ok bound ∧ bound.Holds Numeral.Short) ∨
      ∃ arg ∈ args, store.get? arg = none ∧ store.bind program inner params args =
        .error (.undefinedVariable arg (some ("in call to " ++ program.display))) := by
  induction params generalizing inner args with
  | nil => exact .inl ⟨inner, rfl, hinner⟩
  | cons param params ih =>
    cases args with
    | nil => exact .inl ⟨inner, rfl, hinner⟩
    | cons arg args =>
      have hparam := hparams param (by simp)
      have harg := hargs arg (by simp)
      cases hget : store.get? arg with
      | none =>
        refine .inr ⟨arg, by simp, hget, ?_⟩
        rw [Store.bind, harg.checkKey, harg.shown, hprogram.shown, hget]
        rfl
      | some value =>
        have hstep : store.bind program inner (param :: params) (arg :: args) =
            store.bind program (inner.put param value) params args := by
          have hwrite := write_eq hparam inner value
          simp only [Store.bind, harg.checkKey, hget, hwrite, Bind.bind, Except.bind]
        rw [hstep]
        have hrest : ∀ a ∈ args, a.IsIdentifier := fun a ha => hargs a (by simp [ha])
        have hmore := ih (fun p hp => hparams p (by simp [hp])) hrest
          (hinner.put param (hstore arg value hget))
        rcases hmore with hbound | ⟨other, hother, hnone, hfail⟩
        · exact .inl hbound
        · exact .inr ⟨other, by simp [hother], hnone, hfail⟩

/-- The scope of a call that fits its program has a result. -/
theorem enter_cases {store : Store} (hstore : store.Holds Numeral.Short) {registry : Registry}
    {program : Atom} (hprogram : program.IsIdentifier) {d : Definition}
    (hlookup : registry.lookup program = .ok d)
    (hparams : ∀ param ∈ d.params, param.IsIdentifier) {args : List Atom}
    (hargs : ∀ arg ∈ args, arg.IsIdentifier) (hlength : args.length = d.params.length) :
    (∃ inner, store.enter registry program args = .ok inner ∧ inner.Holds Numeral.Short ∧
        (inner.get? result).isSome) ∨
      ∃ arg ∈ args, store.get? arg = none ∧ store.enter registry program args =
        .error (.undefinedVariable arg (some ("in call to " ++ program.display))) := by
  have hempty : Store.Holds Numeral.Short [] := holds_nil
  have henter : store.enter registry program args =
      (do
        let inner ← store.bind program [] d.params args
        return if (inner.get? result).isSome then inner else inner.put result 0) := by
    rw [Store.enter, hlookup]
    exact if_neg fun h => h hlength
  rw [henter]
  rcases bind_cases hstore hprogram hparams hargs hempty with
    ⟨bound, hbound, hshort⟩ | ⟨arg, harg, hnone, hfail⟩
  · rw [hbound]
    cases hresult : (bound.get? result).isSome with
    | true =>
      exact .inl ⟨bound, by simp [hresult, Bind.bind, Except.bind, pure, Except.pure], hshort,
        hresult⟩
    | false =>
      refine .inl ⟨bound.put result 0, by
        simp [hresult, Bind.bind, Except.bind, pure, Except.pure],
        hshort.put result Numeral.short_zero, ?_⟩
      rw [get?_put, if_pos rfl]
      rfl
  · rw [hfail]
    exact .inr ⟨arg, harg, hnone, rfl⟩

end Store

namespace Output

theorem itemText_eq_ok {store : Store} (hshort : store.Holds Numeral.Short) {t : Token}
    (hkind : t.kind ∈ itemKinds) (hstring : t.kind ≠ .string) (hlexical : t.Lexical)
    (hnumber : t.kind = .number → ∃ n, t.value = .ok n) : ∃ s, itemText store t = .ok s := by
  unfold itemText
  split
  · next hkind =>
    obtain ⟨n, hn⟩ := hnumber hkind
    exact ⟨_, result_bind_eq_ok.mpr ⟨n, hn, Numeral.write_of_short (Token.short_of_value hn)⟩⟩
  · next hne =>
    have hidentifier : t.kind = .identifier := by
      simpa [itemKinds, hstring, hne] using hkind
    have hname := hlexical.identifier hidentifier
    cases hget : store.get? t.text with
    | some value =>
      have hwrite := Numeral.write_of_short (hshort _ _ hget)
      exact ⟨_, result_bind_eq_ok.mpr ⟨(), hname.checkKey, hwrite⟩⟩
    | none => exact ⟨placeholder, by rw [hname.checkKey, hname.shown]; rfl⟩

/-- A line of regular items can always be put together. -/
theorem parts_eq_ok {store : Store} (hshort : store.Holds Numeral.Short) {items : List Token}
    (hitems : ∀ t ∈ items, t.kind ∈ itemKinds ∧ t.Lexical ∧
      (t.kind = .number → ∃ n, t.value = .ok n)) (afterString : Bool) :
    ∃ texts : List String, parts store afterString items = .ok (texts.map .text) := by
  induction items generalizing afterString with
  | nil => exact ⟨[], rfl⟩
  | cons t items ih =>
    obtain ⟨hkind, hlexical, hnumber⟩ := hitems t (by simp)
    have hrest := ih fun u hu => hitems u (by simp [hu])
    unfold parts
    split
    · next hstring =>
      obtain ⟨s, hs⟩ := hlexical.exists_text hstring
      obtain ⟨texts, htexts⟩ := hrest true
      rw [htexts, hs]
      exact ⟨s :: texts, rfl⟩
    · next hstring =>
      obtain ⟨s, hs⟩ := itemText_eq_ok hshort hkind hstring hlexical hnumber
      obtain ⟨texts, htexts⟩ := hrest false
      rw [hs, htexts]
      cases afterString with
      | true => exact ⟨s :: texts, rfl⟩
      | false => exact ⟨" " :: s :: texts, rfl⟩

theorem join_texts (texts : List String) : ∃ s, join (texts.map .text) = .ok s := by
  induction texts with
  | nil => exact ⟨"", rfl⟩
  | cons text texts ih =>
    obtain ⟨s, hs⟩ := ih
    exact ⟨text ++ s, by simp [join, hs, bind, Except.bind, pure, Except.pure]⟩

theorem render_eq_ok {store : Store} {items : List Token}
    (hregular : (Statement.output items).Regular) (hshort : store.Holds Numeral.Short) :
    ∃ line, render store items = .ok line := by
  obtain ⟨texts, htexts⟩ := parts_eq_ok hshort hregular.2 true
  obtain ⟨line, hline⟩ := join_texts texts
  exact ⟨line, by rw [render, htexts]; exact hline⟩

end Output

namespace Machine

/-- How many of the targets of `INPUT` read a line. -/
def readCount (targets : List Token) : Nat := targets.countP fun t => t.kind ≠ .string

/-- The ways in which a statement fails on a machine, with the error that it fails with. -/
inductive Fault (machine : Machine) : Statement → Error → Prop
  /-- The operand of an increment has no value. -/
  | operand {target operand : Atom} {source : String}
      (hsource : (Statement.increment target operand).source = .ok source)
      (h : machine.store.get? operand = none) :
      Fault machine (.increment target operand)
        (.undefinedVariable operand (some ("in `" ++ source ++ "`")))
  /-- The new value of an increment has too many digits. -/
  | sum {target operand : Atom} {value : Int} (hvalue : machine.store.get? operand = some value)
      (h : (Text.digitLimit : Int) ≤ value + 1) :
      Fault machine (.increment target operand) .tooManyDigitsWritten
  /-- An argument of a call has no value. -/
  | argument {target callee arg : Atom} {args : List Atom} (harg : arg ∈ args)
      (h : machine.store.get? arg = none) :
      Fault machine (.call target callee args)
        (.undefinedVariable arg (some ("in call to " ++ callee.display)))
  /-- The count of a loop has no value. -/
  | count {count : Atom} {body : List Statement} (h : machine.store.get? count = none) :
      Fault machine (.loop count body) (.undefinedCount count)
  /-- There is no line left for a target. -/
  | inputEnded {before after : List Token} {t : Token} (ht : t.kind = .identifier)
      (h : machine.input[readCount before]? = none) :
      Fault machine (.input (before ++ t :: after)) (.inputEnded t.text)
  /-- The line for a target is no number. -/
  | inputNotNumber {before after : List Token} {t : Token} {line : String}
      (ht : t.kind = .identifier) (hline : machine.input[readCount before]? = some line)
      (h : Text.isDecimal (Text.strip line.toList) = false) :
      Fault machine (.input (before ++ t :: after))
        (.inputNotNumber t.text (String.ofList (Text.strip line.toList)))
  /-- The line for a target is a number with too many digits. -/
  | inputTooLong {before after : List Token} {t : Token} {line : String}
      (ht : t.kind = .identifier) (hline : machine.input[readCount before]? = some line)
      (hdigits : Text.isDecimal (Text.strip line.toList) = true)
      (h : Text.maxDigits < (Text.strip line.toList).length) :
      Fault machine (.input (before ++ t :: after))
        (.tooManyDigitsRead (Text.strip line.toList).length)

mutual

/-- `Reaches tracing depth s machine found at`: executing `s` on `machine` comes to the statement
`found`, and then the machine is `at`. Calls may go as deep as `depth`. -/
inductive Reaches (tracing : Tracing) :
    Nat → Statement → Machine → Statement → Machine → Prop
  | here {depth : Nat} {s : Statement} {machine : Machine} :
      Reaches tracing depth s machine s machine
  | loop {depth rounds : Nat} {count : Atom} {body : List Statement} {value : Int}
      {machine entered round final : Machine} {found : Statement}
      (henter : enterLoop tracing count machine = (.ok value, entered))
      (hrounds : rounds < value.toNat)
      (hround : iterate (executeBlock tracing (callProgram tracing depth) body) rounds entered =
        (.ok (), round))
      (inside : ReachesIn tracing depth body round found final) :
      Reaches tracing depth (.loop count body) machine found final
  | call {depth : Nat} {target callee : Atom} {args : List Atom} {inner : Store}
      {definition : Definition} {machine entered final : Machine} {found : Statement}
      (henter : enterCall tracing callee args machine = (.ok (inner, definition), entered))
      (inside : ReachesIn tracing depth definition.body { entered with store := inner } found final) :
      Reaches tracing (depth + 1) (.call target callee args) machine found final

/-- The same for a row of statements. -/
inductive ReachesIn (tracing : Tracing) :
    Nat → List Statement → Machine → Statement → Machine → Prop
  | first {depth : Nat} {s : Statement} {rest : List Statement} {machine final : Machine}
      {found : Statement} (h : Reaches tracing depth s machine found final) :
      ReachesIn tracing depth (s :: rest) machine found final
  | later {depth : Nat} {s : Statement} {rest : List Statement} {machine next final : Machine}
      {found : Statement}
      (hfirst : execute tracing (callProgram tracing depth) s machine = (.ok (), next))
      (h : ReachesIn tracing depth rest next found final) :
      ReachesIn tracing depth (s :: rest) machine found final

end

/-- A step keeps the registry and the variables that have values, and does not store a value that
cannot be written. -/
structure Follows (machine next : Machine) : Prop where
  registry : next.registry = machine.registry
  short : machine.store.Holds Numeral.Short → next.store.Holds Numeral.Short
  kept : ∀ name, (machine.store.get? name).isSome → (next.store.get? name).isSome

theorem Follows.refl (machine : Machine) : Follows machine machine :=
  ⟨rfl, id, fun _ => id⟩

theorem Follows.trans {machine next last : Machine} (h : Follows machine next)
    (h' : Follows next last) : Follows machine last :=
  ⟨h'.registry.trans h.registry, h'.short ∘ h.short, fun name => h'.kept name ∘ h.kept name⟩

/-- Only what was printed or traced is different. -/
structure Quiet (machine next : Machine) : Prop where
  store : next.store = machine.store
  registry : next.registry = machine.registry
  input : next.input = machine.input

theorem Quiet.follows {machine next : Machine} (h : Quiet machine next) :
    Follows machine next := by
  refine ⟨h.registry, ?_, ?_⟩
  · rw [h.store]
    exact id
  · rw [h.store]
    exact fun _ => id

theorem follows_put {machine next : Machine} {name : Atom} {value : Int}
    (hregistry : next.registry = machine.registry)
    (hstore : next.store = machine.store.put name value) (hvalue : Numeral.Short value) :
    Follows machine next := by
  refine ⟨hregistry, fun hshort => ?_, fun other hother => ?_⟩
  · rw [hstore]
    exact hshort.put name hvalue
  · rw [hstore]
    exact Store.isSome_put name value hother

section Steps

variable {tracing : Tracing} {machine : Machine} {E : Error → Prop}

theorem print_quiet (text : String) (machine : Machine) :
    ∃ next, print text machine = (.ok (), next) ∧ Quiet machine next :=
  ⟨_, rfl, rfl, rfl, rfl⟩

theorem emit_quiet (tracing : Tracing) (level : Nat) (text : String) (machine : Machine) :
    ∃ next, emit tracing level text machine = (.ok (), next) ∧ Quiet machine next := by
  unfold emit
  split
  · exact ⟨machine, rfl, rfl, rfl, rfl⟩
  · split
    · exact ⟨_, rfl, rfl, rfl, rfl⟩
    · exact print_quiet _ machine

theorem setVariable_eq {name : Atom} (hname : name.IsIdentifier) (value : Int) :
    setVariable name value machine =
      (.ok (), { machine with store := machine.store.put name value }) :=
  setVariable_of_key hname.checkKey value

theorem assign_ensures {target : Atom} (htarget : target.IsIdentifier) {value : Int}
    (hvalue : Numeral.Short value) :
    Ensures (assign tracing target value) machine (fun _ next => Follows machine next) E := by
  unfold assign
  refine Ensures.bind_of_ok (setVariable_eq htarget value) ?_
  rw [htarget.shown, Numeral.write_of_short hvalue]
  obtain ⟨next, hemit, hquiet⟩ := emit_quiet tracing 2
    (target.display ++ " := " ++ toString value)
    { machine with store := machine.store.put target value }
  exact Ensures.of_ok hemit (follows_put hquiet.registry hquiet.store hvalue)

/-- A value that is too long is stored before this comes out. -/
theorem assign_of_not_short {target : Atom} (htarget : target.IsIdentifier) {value : Int}
    (hvalue : ¬ Numeral.Short value) :
    assign tracing target value machine =
      (.error .tooManyDigitsWritten,
        { machine with store := machine.store.put target value }) := by
  unfold assign
  rw [Action.bind_ok (setVariable_eq htarget value), htarget.shown,
    Numeral.write_of_not_short hvalue]
  rfl

theorem increment_source_eq_ok {target operand : Atom} (htarget : target.IsIdentifier)
    (hoperand : operand.IsIdentifier) :
    ∃ source, (Statement.increment target operand).source = .ok source := by
  obtain ⟨a, rfl⟩ := htarget.exists_text
  obtain ⟨b, rfl⟩ := hoperand.exists_text
  exact ⟨_, by rw [Statement.source]; rfl⟩

theorem operandValue_ensures {target operand : Atom} (htarget : target.IsIdentifier)
    (hoperand : operand.IsIdentifier) :
    Ensures (operandValue target operand) machine
      (fun value next => next = machine ∧ machine.store.get? operand = some value)
      (Fault machine (.increment target operand)) := by
  unfold operandValue
  rw [hoperand.checkKey, hoperand.shown]
  refine Ensures.bind_of_ok rfl (Ensures.bind_of_ok rfl ?_)
  cases hget : machine.store.get? operand with
  | some value => exact Ensures.of_ok rfl ⟨rfl, rfl⟩
  | none =>
    obtain ⟨source, hsource⟩ := increment_source_eq_ok htarget hoperand
    rw [hsource]
    exact Ensures.of_error rfl (.operand hsource hget)

theorem increment_ensures {call : Atom → List Atom → Action Machine Int} {target operand : Atom}
    (htarget : target.IsIdentifier) (hoperand : operand.IsIdentifier)
    (hshort : machine.store.Holds Numeral.Short) :
    Ensures (execute tracing call (.increment target operand)) machine
      (fun _ next => Follows machine next) (Fault machine (.increment target operand)) := by
  rw [execute, Statement.checkReady_of_regular (s := .increment target operand)
    ⟨htarget, hoperand⟩]
  refine Ensures.bind_of_ok rfl ((operandValue_ensures htarget hoperand).bind ?_)
  rintro value _ ⟨rfl, hvalue⟩
  by_cases hsum : Numeral.Short (value + 1)
  · exact assign_ensures htarget hsum
  · refine Ensures.of_error (assign_of_not_short htarget hsum) (.sum hvalue ?_)
    have hold := hshort operand value hvalue
    unfold Numeral.Short at hold hsum
    generalize Text.digitLimit = bound at hold hsum ⊢
    omega

theorem output_ensures {call : Atom → List Atom → Action Machine Int} {items : List Token}
    (hregular : (Statement.output items).Regular) (hshort : machine.store.Holds Numeral.Short) :
    Ensures (execute tracing call (.output items)) machine (fun _ next => Follows machine next)
      E := by
  obtain ⟨line, hline⟩ := Output.render_eq_ok hregular hshort
  rw [execute]
  refine Ensures.bind_of_ok rfl ?_
  rw [hline]
  obtain ⟨next, hprint, hquiet⟩ := print_quiet (line ++ "\n") machine
  exact Ensures.bind_of_ok rfl (Ensures.of_ok hprint hquiet.follows)

theorem readCount_snoc (before : List Token) (t : Token) :
    readCount (before ++ [t]) = readCount before + if t.kind = .string then 0 else 1 := by
  by_cases h : t.kind = .string <;> simp [readCount, List.countP_append, h]

/-- One target, after those in `before` were read from `start`. -/
theorem readTarget_ensures {start : Machine} {before after : List Token} {t : Token}
    (hfollows : Follows start machine)
    (hinput : machine.input = start.input.drop (readCount before)) (hkind : t.kind ∈ targetKinds)
    (hlexical : t.Lexical) :
    Ensures (readTarget tracing t) machine
      (fun _ next => Follows start next ∧
        next.input = start.input.drop (readCount (before ++ [t])))
      (Fault start (.input (before ++ t :: after))) := by
  simp only [targetKinds, List.mem_cons, List.not_mem_nil, or_false] at hkind
  have hhead : machine.input.head? = start.input[readCount before]? := by
    rw [hinput, List.head?_drop]
  unfold readTarget
  rcases hkind with hkind | hkind
  · -- A prompt.
    obtain ⟨s, hs⟩ := hlexical.exists_text hkind
    obtain ⟨next, hprint, hquiet⟩ := print_quiet (Atom.text s).display machine
    rw [if_pos hkind, hs, show (Atom.text s).shown = .ok (Atom.text s).display by simp [Atom.shown]]
    refine Ensures.bind_of_ok rfl (Ensures.of_ok hprint ⟨hfollows.trans hquiet.follows, ?_⟩)
    rw [hquiet.input, hinput, readCount_snoc, if_pos hkind, Nat.add_zero]
  · have hname := hlexical.identifier hkind
    have hstring : t.kind ≠ .string := by simp [hkind]
    rw [if_neg hstring]
    refine Ensures.bind_of_ok rfl ?_
    cases hlines : machine.input with
    | nil =>
      rw [hlines] at hhead
      rw [hname.raised_inputEnded]
      exact Ensures.of_error rfl (.inputEnded hkind hhead.symm)
    | cons line lines =>
      rw [hlines] at hhead hinput
      have hrest : lines = start.input.drop (readCount (before ++ [t])) := by
        rw [readCount_snoc, if_neg hstring, ← List.tail_drop, ← hinput, List.tail_cons]
      refine Ensures.bind_of_ok rfl ?_
      dsimp only
      cases hdigits : Text.isDecimal (Text.strip line.toList) with
      | false =>
        rw [hname.raised_inputNotNumber]
        exact Ensures.of_error rfl (.inputNotNumber hkind hhead.symm hdigits)
      | true =>
        cases hread : Numeral.read (Text.strip line.toList) with
        | error e =>
          obtain ⟨rfl, hlong⟩ := Numeral.read_eq_error hread
          exact Ensures.of_error rfl (.inputTooLong hkind hhead.symm hdigits hlong)
        | ok value =>
          refine Ensures.bind_of_ok rfl (Ensures.bind_of_ok (setVariable_eq hname value) ?_)
          rw [hname.shown]
          obtain ⟨next, hemit, hquiet⟩ := emit_quiet tracing 2
            ("input " ++ t.text.display ++ " = " ++ String.ofList (Text.strip line.toList))
            { machine with input := lines, store := machine.store.put t.text value }
          have hput : Follows machine next :=
            follows_put hquiet.registry hquiet.store (Numeral.short_of_read hread)
          exact Ensures.bind_of_ok rfl
            (Ensures.of_ok hemit ⟨hfollows.trans hput, hquiet.input.trans hrest⟩)

theorem readTargets_ensures {start : Machine} {before targets : List Token}
    (hfollows : Follows start machine)
    (hinput : machine.input = start.input.drop (readCount before))
    (htargets : ∀ t ∈ targets, t.kind ∈ targetKinds ∧ t.Lexical) :
    Ensures (readTargets tracing targets) machine (fun _ next => Follows start next)
      (Fault start (.input (before ++ targets))) := by
  induction targets generalizing machine before with
  | nil => exact Ensures.of_ok rfl hfollows
  | cons t targets ih =>
    obtain ⟨hkind, hlexical⟩ := htargets t (by simp)
    refine (readTarget_ensures hfollows hinput hkind hlexical).bind ?_
    rintro _ next ⟨hnext, hrest⟩
    have hmore := ih hnext hrest fun u hu => htargets u (by simp [hu])
    rwa [List.append_assoc] at hmore

theorem register_eq {definition : Definition} (hname : definition.name.IsIdentifier)
    (h : (machine.registry.find? definition.name).isSome) :
    register definition machine = (.ok (), machine) := by
  rw [register_of_key hname.checkKey, including, if_pos h]

theorem loopCount_ensures {count : Atom} {body : List Statement} (hcount : count.IsIdentifier) :
    Ensures (loopCount count) machine
      (fun value next => next = machine ∧ machine.store.get? count = some value)
      (Fault machine (.loop count body)) := by
  unfold loopCount
  rw [hcount.checkKey]
  refine Ensures.bind_of_ok rfl (Ensures.bind_of_ok rfl ?_)
  cases hget : machine.store.get? count with
  | some value => exact Ensures.of_ok rfl ⟨rfl, rfl⟩
  | none =>
    rw [hcount.raised_undefinedCount]
    exact Ensures.of_error rfl (.count hget)

theorem enterLoop_ensures {count : Atom} {body : List Statement} (hcount : count.IsIdentifier)
    (hshort : machine.store.Holds Numeral.Short) :
    Ensures (enterLoop tracing count) machine (fun _ next => Quiet machine next)
      (Fault machine (.loop count body)) := by
  refine (loopCount_ensures hcount).bind ?_
  rintro value _ ⟨rfl, hvalue⟩
  rw [hcount.shown, Numeral.write_of_short (hshort count value hvalue)]
  refine Ensures.bind_of_ok rfl (Ensures.bind_of_ok rfl ?_)
  obtain ⟨next, hemit, hquiet⟩ := emit_quiet tracing 3
    ("loop " ++ count.display ++ " x" ++ toString value) _
  exact Ensures.bind_of_ok hemit (Ensures.of_ok rfl hquiet)

/-- Rounds of a loop keep what each round keeps, and fail only in a round that they come to. -/
theorem iterate_ensures {act : Action Machine Unit} {I : Machine → Prop}
    {F : Machine → Error → Prop}
    (hact : ∀ round, I round → Ensures act round (fun _ next => I next) (F round))
    (count : Nat) (hmachine : I machine) :
    Ensures (iterate act count) machine (fun _ next => I next)
      (fun e => ∃ rounds round, rounds < count ∧ iterate act rounds machine = (.ok (), round) ∧
        F round e) := by
  induction count generalizing machine with
  | zero => exact Ensures.of_ok rfl hmachine
  | succ count ih =>
    rw [iterate_succ]
    have hfirst := (hact machine hmachine).run.imp (fun _ _ => id) fun e he =>
      (⟨0, machine, Nat.succ_pos count, rfl, he⟩ : ∃ rounds round, rounds < count + 1 ∧
        iterate act rounds machine = (.ok (), round) ∧ F round e)
    refine hfirst.bind ?_
    rintro _ next ⟨hrun, hnext⟩
    refine (ih hnext).imp (fun _ _ => id) ?_
    rintro e ⟨rounds, round, hlt, hrounds, he⟩
    refine ⟨rounds + 1, round, Nat.succ_lt_succ hlt, ?_, he⟩
    rw [iterate_succ, Action.bind_ok hrun, hrounds]

/-- Unless a name or a number is too long, all that the level decides is whether a call is
traced. -/
theorem traceCall_eq {program : Atom} (hprogram : program.isWritable) {params : List Atom}
    (hparams : ∀ param ∈ params, param.isWritable) {inner : Store}
    (hinner : inner.Holds Numeral.Short) :
    ∃ bindings : List String, ∀ tracing, traceCall tracing program params inner =
      if tracing.level = 0 then pure ()
      else emit tracing 1
        ("call " ++ program.display ++ "(" ++ ", ".intercalate bindings ++ ")") := by
  have hvalue : ∀ param, Numeral.Short ((inner.get? param).getD 0) := by
    intro param
    cases hget : inner.get? param with
    | none => exact Numeral.short_zero
    | some value => exact hinner param value hget
  have hbindings : ∃ shown, bindings params inner = .ok shown := by
    unfold bindings
    induction params with
    | nil => exact ⟨[], rfl⟩
    | cons param params ih =>
      obtain ⟨shown, hshown⟩ := ih fun p hp => hparams p (by simp [hp])
      rw [List.mapM_cons, hshown, Atom.shown_of_isWritable (hparams param (by simp)),
        Numeral.write_of_short (hvalue param)]
      exact ⟨_, rfl⟩
  obtain ⟨shown, hshown⟩ := hbindings
  refine ⟨shown, fun tracing => ?_⟩
  rw [traceCall_eq_bindings, Atom.shown_of_isWritable hprogram, hshown]
  rfl

theorem traceCall_quiet {program : Atom} (hprogram : program.IsIdentifier) {params : List Atom}
    (hparams : ∀ param ∈ params, param.IsIdentifier) {inner : Store}
    (hinner : inner.Holds Numeral.Short) :
    ∃ next, traceCall tracing program params inner machine = (.ok (), next) ∧
      Quiet machine next := by
  obtain ⟨bindings, htrace⟩ := traceCall_eq hprogram.isWritable
    (fun param hparam => (hparams param hparam).isWritable) hinner
  rw [htrace]
  split
  · exact ⟨machine, rfl, rfl, rfl, rfl⟩
  · exact emit_quiet tracing 1 _ machine

/-- A call that fits its program enters it, unless one of its arguments has no value. -/
theorem enterCall_ensures {target callee : Atom} {args : List Atom} {d : Definition}
    (hregular : (Statement.call target callee args).Regular)
    (hlookup : machine.registry.lookup callee = .ok d)
    (hparams : ∀ param ∈ d.params, param.IsIdentifier) (hlength : args.length = d.params.length)
    (hshort : machine.store.Holds Numeral.Short) :
    Ensures (enterCall tracing callee args) machine
      (fun entry next => Quiet machine next ∧ entry.2 = d ∧ entry.1.Holds Numeral.Short ∧
        (entry.1.get? Store.result).isSome)
      (Fault machine (.call target callee args)) := by
  obtain ⟨_, hcallee, hargs⟩ := hregular
  refine Ensures.bind_of_ok rfl ?_
  rcases Store.enter_cases hshort hcallee hlookup hparams hargs hlength with
    ⟨inner, henter, hinner, hresult⟩ | ⟨arg, harg, hnone, hfail⟩
  · rw [henter, hlookup]
    refine Ensures.bind_of_ok rfl (Ensures.bind_of_ok rfl ?_)
    obtain ⟨next, htrace, hquiet⟩ := @traceCall_quiet tracing machine _ hcallee _ hparams _ hinner
    exact Ensures.bind_of_ok htrace (Ensures.of_ok rfl ⟨hquiet, rfl, hinner, hresult⟩)
  · rw [hfail]
    exact Ensures.of_error rfl (.argument harg hnone)

end Steps

/-- Executing the statement fails with a fault of a statement that it comes to, or because calls may
not go that deep. -/
def Failed (tracing : Tracing) (depth : Nat) (s : Statement) (machine : Machine) (e : Error) :
    Prop :=
  e = .exhausted ∨ ∃ found final, Reaches tracing depth s machine found final ∧ Fault final found e

def FailedIn (tracing : Tracing) (depth : Nat) (body : List Statement) (machine : Machine)
    (e : Error) : Prop :=
  e = .exhausted ∨
    ∃ found final, ReachesIn tracing depth body machine found final ∧ Fault final found e

section Runs

variable {tracing : Tracing} {registry : Registry} {depth : Nat}

theorem Fault.failed {s : Statement} {machine : Machine} {e : Error} (h : Fault machine s e) :
    Failed tracing depth s machine e :=
  .inr ⟨s, machine, .here, h⟩

theorem inScope_ensures {α : Type} {act : Action Machine α} {store : Store} {machine : Machine}
    {Q : α → Machine → Prop} {E : Error → Prop}
    (h : Ensures act { machine with store } Q E) :
    Ensures (inScope store act) machine
      (fun a next => ∃ after, Q a after ∧ next = { after with store := machine.store }) E := by
  cases hrun : act { machine with store } with
  | mk r after =>
    cases r with
    | ok a =>
      simp only [Ensures, hrun] at h
      exact Ensures.of_ok (by simp only [inScope, hrun]) ⟨after, h, rfl⟩
    | error e =>
      simp only [Ensures, hrun] at h
      have hscope : inScope store act machine =
          (.error e, { after with store := machine.store }) := by simp only [inScope, hrun]
      exact Ensures.of_error hscope h

/-- Calls as deep as `depth` that fit a program give a value that can be written, or fail by a fault
that they come to. -/
def SafeCalls (tracing : Tracing) (registry : Registry) (depth : Nat) : Prop :=
  ∀ {target callee : Atom} {args : List Atom} {machine : Machine},
    (Statement.call target callee args).Regular →
    (Statement.call target callee args).Linked registry →
    machine.registry = registry → machine.store.Holds Numeral.Short →
      Ensures (callProgram tracing depth callee args) machine
        (fun value next => Follows machine next ∧ Numeral.Short value)
        (Failed tracing depth (.call target callee args) machine)

mutual

theorem execute_ensures (hcalls : SafeCalls tracing registry depth) :
    ∀ (s : Statement) {machine : Machine}, s.Regular → s.Linked registry →
      machine.registry = registry → machine.store.Holds Numeral.Short →
        Ensures (execute tracing (callProgram tracing depth) s) machine
          (fun _ next => Follows machine next) (Failed tracing depth s machine)
  | .assign target value, machine, hregular, _, _, _ => by
    rw [execute, Statement.checkReady_of_regular hregular]
    obtain ⟨htarget, _, hvalue⟩ := hregular
    exact Ensures.bind_of_ok rfl (assign_ensures htarget hvalue)
  | .increment target operand, machine, hregular, _, _, hshort =>
    (increment_ensures hregular.1 hregular.2 hshort).imp (fun _ _ => id) fun _ => Fault.failed
  | .call target callee args, machine, hregular, hlinked, hregistry, hshort => by
    rw [execute, Statement.checkReady_of_regular hregular]
    refine Ensures.bind_of_ok rfl ((hcalls hregular hlinked hregistry hshort).bind ?_)
    rintro value next ⟨hnext, hvalue⟩
    exact Ensures.of_ok (setVariable_eq hregular.1 value)
      (hnext.trans (follows_put rfl rfl hvalue))
  | .input targets, machine, hregular, _, _, _ => by
    rw [execute]
    exact (@readTargets_ensures tracing machine machine [] targets (.refl machine) rfl
      hregular.2).imp (fun _ _ => id) fun _ => Fault.failed
  | .output items, machine, hregular, _, _, hshort => output_ensures hregular hshort
  | .loop count body, machine, hregular, hlinked, hregistry, hshort => by
    rw [execute_loop, Statement.checkReady_of_regular hregular]
    obtain ⟨hcount, hbody⟩ := hregular
    have henter := (@enterLoop_ensures tracing machine count body hcount hshort).run.imp
      (fun _ _ => id) fun _ => @Fault.failed tracing depth _ _ _
    refine Ensures.bind_of_ok rfl (henter.bind ?_)
    rintro value entered ⟨hrun, hquiet⟩
    have hround : ∀ round, Follows machine round →
        Ensures (executeBlock tracing (callProgram tracing depth) body) round
          (fun _ next => Follows machine next) (FailedIn tracing depth body round) := by
      intro round hfollows
      exact (executeBlock_ensures hcalls body hbody hlinked
        (hfollows.registry.trans hregistry) (hfollows.short hshort)).imp
          (fun _ _ => hfollows.trans) fun _ => id
    refine (iterate_ensures hround value.toNat hquiet.follows).imp (fun _ _ => id) ?_
    rintro e ⟨rounds, round, hlt, hrounds, hfailed⟩
    rcases hfailed with rfl | ⟨found, final, hreach, hfault⟩
    · exact .inl rfl
    · exact .inr ⟨found, final, .loop hrun hlt hrounds hreach, hfault⟩
  | .define name params body, machine, hregular, hlinked, hregistry, _ => by
    have hfind : (machine.registry.find? name).isSome := by
      rw [hregistry]
      exact hlinked.1
    rw [execute, Statement.checkReady_of_regular hregular]
    exact Ensures.bind_of_ok rfl
      (Ensures.of_ok (register_eq hregular.1 hfind) (.refl machine))
  | .missing, _, hregular, _, _, _ | .token _, _, hregular, _, _, _
  | .program _, _, hregular, _, _, _ => hregular.elim

theorem executeBlock_ensures (hcalls : SafeCalls tracing registry depth) :
    ∀ (body : List Statement) {machine : Machine}, Statement.RegularAll body →
      Statement.LinkedAll registry body → machine.registry = registry →
      machine.store.Holds Numeral.Short →
        Ensures (executeBlock tracing (callProgram tracing depth) body) machine
          (fun _ next => Follows machine next) (FailedIn tracing depth body machine)
  | [], machine, _, _, _, _ => by
    rw [executeBlock]
    exact Ensures.of_ok rfl (.refl machine)
  | s :: rest, machine, hregular, hlinked, hregistry, hshort => by
    have hfirst := (execute_ensures hcalls s hregular.1 hlinked.1 hregistry hshort).run.imp
      (fun _ _ => id) fun e (he : Failed tracing depth s machine e) =>
        (he.imp id fun ⟨found, final, hreach, hfault⟩ => ⟨found, final, .first hreach, hfault⟩ :
          FailedIn tracing depth (s :: rest) machine e)
    rw [executeBlock]
    refine hfirst.bind ?_
    rintro _ next ⟨hrun, hnext⟩
    refine (executeBlock_ensures hcalls rest hregular.2 hlinked.2
      (hnext.registry.trans hregistry) (hnext.short hshort)).imp (fun _ _ => hnext.trans) ?_
    rintro e (rfl | ⟨found, final, hreach, hfault⟩)
    · exact .inl rfl
    · exact .inr ⟨found, final, .later hrun hreach, hfault⟩

end

/-- The programs are regular and linked to one another. -/
def Fit (registry : Registry) : Prop :=
  ∀ d ∈ registry, (∀ param ∈ d.params, param.IsIdentifier) ∧ Statement.RegularAll d.body ∧
    Statement.LinkedAll registry d.body

theorem read_result_ensures {machine : Machine} (hshort : machine.store.Holds Numeral.Short)
    (hresult : (machine.store.get? Store.result).isSome) {E : Error → Prop} :
    Ensures (do Action.ofExcept ((← Action.get).store.read Store.result)) machine
      (fun value next => next = machine ∧ Numeral.Short value) E := by
  obtain ⟨value, hvalue⟩ := Option.isSome_iff_exists.mp hresult
  have hread : machine.store.read Store.result = .ok value := by
    rw [Store.read, hvalue]
    rfl
  refine Ensures.bind_of_ok rfl ?_
  rw [hread]
  exact Ensures.of_ok rfl ⟨rfl, hshort _ _ hvalue⟩

theorem callProgram_ensures (hfit : Fit registry) (depth : Nat) :
    SafeCalls tracing registry depth := by
  induction depth with
  | zero => exact fun _ _ _ _ => Ensures.of_error rfl (.inl rfl)
  | succ depth ih =>
    intro target callee args machine hregular hlinked hregistry hshort
    obtain ⟨d, hfind, hlength⟩ := hlinked
    obtain ⟨hparams, hbody, hall⟩ := hfit d (List.mem_of_find?_eq_some hfind)
    have hlookup : machine.registry.lookup callee = .ok d := by
      rw [hregistry, Registry.lookup, Atom.IsIdentifier.checkKey hregular.2.1, hfind]
      rfl
    have henter := (@enterCall_ensures tracing machine target callee args d hregular hlookup hparams
      hlength hshort).run.imp (fun _ _ => id) fun _ => @Fault.failed tracing (depth + 1) _ _ _
    rw [callProgram_succ]
    refine henter.bind ?_
    rintro ⟨inner, definition⟩ entered ⟨hrun, hquiet, hsame, hinner, hresult⟩
    obtain rfl : definition = d := hsame
    -- The body runs in the scope of the call, which has a result and keeps it.
    have hbodyRun := @executeBlock_ensures tracing registry depth ih definition.body
      { entered with store := inner } hbody hall (hquiet.registry.trans hregistry) hinner
    have hscope := inScope_ensures (hbodyRun.bind fun _ after hafter =>
      (read_result_ensures (hafter.short hinner) (hafter.kept _ hresult)).imp
        (fun value next h => (⟨h.1 ▸ hafter, h.2⟩ :
          Follows { entered with store := inner } next ∧ Numeral.Short value)) fun _ => id)
    refine (hscope.imp (fun _ _ => id) ?_).bind ?_
    · rintro e (rfl | ⟨found, final, hreach, hfault⟩)
      · exact .inl rfl
      · exact .inr ⟨found, final, .call hrun hreach, hfault⟩
    · rintro value _ ⟨after, ⟨hafter, hvalue⟩, rfl⟩
      have hreturn : Follows entered { after with store := entered.store } :=
        ⟨hafter.registry, id, fun _ => id⟩
      rw [hregular.2.1.shown, Numeral.write_of_short hvalue]
      refine Ensures.bind_of_ok rfl (Ensures.bind_of_ok rfl ?_)
      obtain ⟨last, hemit, hlast⟩ := emit_quiet tracing 1
        ("return " ++ callee.display ++ " -> " ++ toString value)
        { after with store := entered.store }
      exact Ensures.bind_of_ok hemit (Ensures.of_ok rfl
        ⟨(hquiet.follows.trans hreturn).trans hlast.follows, hvalue⟩)

end Runs

end Machine

theorem Registry.Layered.linked {registry : Registry} (h : Layered registry) :
    ∀ d ∈ registry, Statement.LinkedAll registry d.body := by
  induction h with
  | nil => simp
  | @snoc before last hbefore hlinked ih =>
    intro d hd
    rcases List.mem_append.mp hd with hd | hd
    · exact Statement.LinkedAll.append d.body (ih d hd) [last]
    · obtain rfl := List.mem_singleton.mp hd
      exact Statement.LinkedAll.append d.body hlinked [d]

/-- A run of a parsed program succeeds or fails by a fault of a statement that it comes to, and
leaves the registry as it is. -/
theorem parsed_run_faults {body : List Statement} {registry : Registry} (h : Parsed body registry)
    (tracing : Tracing) (input : String) :
    ∃ r after, Machine.run tracing body (Machine.start registry input) = (r, after) ∧
      after.registry = registry ∧
      ((∃ value, r = .ok value) ∨
        ∃ e found final, r = .error e ∧
          Machine.ReachesIn tracing (Machine.callDepth body registry) body
            (Machine.start registry input) found final ∧
          Machine.Fault final found e) := by
  obtain ⟨hlayered, hlinked⟩ := Statement.enrollAll_linked body .nil h.enrolls
  have hdefinitions := Statement.enrollAll_regular body h.regular (by simp) h.enrolls
  have hfit : Machine.Fit registry := fun d hd =>
    ⟨(hdefinitions d hd).2.1, (hdefinitions d hd).2.2, hlayered.linked d hd⟩
  have hempty : (Machine.start registry input).store.Holds Numeral.Short := by
    intro name value hvalue
    cases hvalue
  have hsafe := Machine.executeBlock_ensures
    (@Machine.callProgram_ensures tracing registry hfit (Machine.callDepth body registry)) body
    h.regular hlinked (rfl : (Machine.start registry input).registry = registry) hempty
  have hrun : Ensures (Machine.run tracing body) (Machine.start registry input)
      (fun _ _ => True) (Machine.FailedIn tracing (Machine.callDepth body registry) body
        (Machine.start registry input)) := by
    have hblock : Machine.runBlock tracing body (Machine.start registry input) =
        Machine.executeBlock tracing
          (Machine.callProgram tracing (Machine.callDepth body registry)) body
          (Machine.start registry input) := rfl
    refine Ensures.bind (Ensures.congr hblock hsafe) fun _ _ _ => ?_
    exact Ensures.of_ok rfl trivial
  obtain ⟨_, hsettled, hkept⟩ :=
    @Machine.run_steady tracing registry body hlayered hlinked (Machine.start registry input) rfl
  cases hresult : Machine.run tracing body (Machine.start registry input) with
  | mk r after =>
    rw [hresult] at hsettled hkept
    refine ⟨r, after, rfl, hkept, ?_⟩
    cases r with
    | ok value => exact .inl ⟨value, rfl⟩
    | error e =>
      simp only [Ensures, hresult] at hrun
      rcases hrun with rfl | ⟨found, final, hreach, hfault⟩
      · exact absurd rfl hsettled
      · exact .inr ⟨e, found, final, rfl, hreach, hfault⟩

/-- The calls in the loop succeed; the last one has an argument without a value. -/
theorem parsed_run_faults_loop :
    ∃ body registry,
      parseByDescent
        "PROGRAM P(a) DO\nX0 := a + 1\nEND\nINPUT n\nLOOP n DO\nn := P(n)\nEND\nm := P(k)" [] =
        (.ok body, registry) ∧
      (Machine.run ⟨0, false⟩ body (Machine.start registry "2\n")).1 =
        .error (.undefinedVariable (.text "k") (some "in call to P")) ∧
      (Machine.run ⟨0, false⟩ body (Machine.start registry "2\n")).2.registry = registry ∧
      ∃ e found final,
        (Machine.run ⟨0, false⟩ body (Machine.start registry "2\n")).1 = .error e ∧
        Machine.ReachesIn ⟨0, false⟩ (Machine.callDepth body registry) body
          (Machine.start registry "2\n") found final ∧
        Machine.Fault final found e := by
  have hparse : parseByDescent
      "PROGRAM P(a) DO\nX0 := a + 1\nEND\nINPUT n\nLOOP n DO\nn := P(n)\nEND\nm := P(k)" [] =
      (.ok [.define (.text "P") [.text "a"] [.increment (.text "X0") (.text "a")],
          .input [⟨.identifier, .text "n", ⟨4, 7⟩, false⟩],
          .loop (.text "n") [.call (.text "n") (.text "P") [.text "n"]],
          .call (.text "m") (.text "P") [.text "k"]],
        [⟨.text "P", [.text "a"], [.increment (.text "X0") (.text "a")]⟩]) := by
    cbv
  obtain ⟨r, after, hrun, hkept, hends⟩ := parsed_run_faults ⟨_, .inl hparse⟩ ⟨0, false⟩ "2\n"
  have hfails : r = .error (.undefinedVariable (.text "k") (some "in call to P")) := by
    rw [show r = (Machine.run _ _ _).1 from (congrArg Prod.fst hrun).symm]
    decide +kernel
  refine ⟨_, _, hparse, ?_⟩
  rw [hrun]
  refine ⟨hfails, hkept, ?_⟩
  rcases hends with ⟨value, hok⟩ | hfault
  · cases hok.symm.trans hfails
  · exact hfault

end LoopLanguage
