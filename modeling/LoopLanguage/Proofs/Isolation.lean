import LoopLanguage.Proofs.Faults

/-!
What a block depends on and what it changes. Executing a block reads no variable that is not named
in it and sets none that is not a target in it: runs of it from two scopes that agree on its names are
bound by `Confined`, which says both. A called program works in a scope of its own that is made from
the values of the arguments, so nothing has to be known about its body: from two scopes with the same
arguments the two calls start from one and the same machine.
-/

namespace LoopLanguage

/-- The variables among the targets of `INPUT` or the items of `OUTPUT`. -/
def tokenVariables (tokens : List Token) : List Atom :=
  (tokens.filter fun t => t.kind = .identifier).map (·.text)

theorem tokenVariables_subset_cons (t : Token) (tokens : List Token) :
    tokenVariables tokens ⊆ tokenVariables (t :: tokens) :=
  (((List.sublist_cons_self t tokens).filter _).map _).subset

namespace Statement

mutual

/-- The variables that a statement names, definitions in it aside. -/
def vars : Statement → List Atom
  | assign target _ => [target]
  | increment target operand => [target, operand]
  | call target _ args => target :: args
  | input targets => tokenVariables targets
  | output items => tokenVariables items
  | loop count body => count :: varsAll body
  | _ => []

def varsAll : List Statement → List Atom
  | [] => []
  | s :: rest => vars s ++ varsAll rest

end

mutual

/-- The variables that a statement may set, definitions in it aside. -/
def targets : Statement → List Atom
  | assign target _ => [target]
  | increment target _ => [target]
  | call target _ _ => [target]
  | input targets => tokenVariables targets
  | loop _ body => targetsAll body
  | _ => []

def targetsAll : List Statement → List Atom
  | [] => []
  | s :: rest => targets s ++ targetsAll rest

end

theorem mem_varsAll {s : Statement} {body : List Statement} (hs : s ∈ body) {name : Atom}
    (hname : name ∈ s.vars) : name ∈ varsAll body := by
  induction body with
  | nil => cases hs
  | cons first rest ih =>
    rcases List.mem_cons.mp hs with rfl | hs
    · exact List.mem_append_left _ hname
    · exact List.mem_append_right _ (ih hs)

theorem mem_targetsAll {s : Statement} {body : List Statement} (hs : s ∈ body) {name : Atom}
    (hname : name ∈ s.targets) : name ∈ targetsAll body := by
  induction body with
  | nil => cases hs
  | cons first rest ih =>
    rcases List.mem_cons.mp hs with rfl | hs
    · exact List.mem_append_left _ hname
    · exact List.mem_append_right _ (ih hs)

/-- The statement comes from a source, names variables among `names` and sets those among
`settable` only. -/
structure Confined (names settable : List Atom) (s : Statement) : Prop where
  regular : s.Regular
  vars : ∀ name ∈ s.vars, name ∈ names
  targets : ∀ name ∈ s.targets, name ∈ settable

theorem confined_of_mem {block : List Statement} (hregular : RegularAll block) :
    ∀ s ∈ block, s.Confined (varsAll block) (targetsAll block) := fun _ hs =>
  ⟨hregular.mem hs, fun _ => mem_varsAll hs, fun _ => mem_targetsAll hs⟩

/-- `Block block body`: the first is the second itself, or the body of a loop or of a definition in
it, at any depth. -/
inductive Block (block : List Statement) : List Statement → Prop
  | whole : Block block block
  | loop {body inner : List Statement} {count : Atom} (hmem : .loop count inner ∈ body)
      (h : Block block inner) : Block block body
  | define {body inner : List Statement} {name : Atom} {params : List Atom}
      (hmem : .define name params inner ∈ body) (h : Block block inner) : Block block body

theorem Block.regular {block body : List Statement} (h : Block block body)
    (hbody : RegularAll body) : RegularAll block := by
  induction h with
  | whole => exact hbody
  | loop hmem _ ih => exact ih (hbody.mem hmem).2
  | define hmem _ ih => exact ih (hbody.mem hmem).2.2.2

end Statement

/-- The two stores have the same values, or none, under each of the names. -/
def Store.AgreeOn (names : List Atom) (store other : Store) : Prop :=
  ∀ name ∈ names, other.get? name = store.get? name

instance (names : List Atom) (store other : Store) : Decidable (Store.AgreeOn names store other) :=
  inferInstanceAs (Decidable (∀ name ∈ names, other.get? name = store.get? name))

namespace Store

variable {names : List Atom} {store other : Store}

theorem AgreeOn.put (h : AgreeOn names store other) (name : Atom) (value : Int) :
    AgreeOn names (store.put name value) (other.put name value) := by
  intro found hfound
  rw [get?_put, get?_put, h found hfound]

theorem AgreeOn.bind (h : AgreeOn names store other) {args : List Atom}
    (hargs : ∀ arg ∈ args, arg ∈ names) (program : Atom) (inner : Store) (params : List Atom) :
    other.bind program inner params args = store.bind program inner params args := by
  induction params generalizing inner args with
  | nil => rfl
  | cons param params ih =>
    cases args with
    | nil => rfl
    | cons arg args =>
      have hrest : ∀ inner, other.bind program inner params args =
          store.bind program inner params args :=
        fun inner => ih (fun a ha => hargs a (by simp [ha])) inner
      simp only [Store.bind, h arg (hargs arg (by simp)), hrest]

/-- The scope of a call is made from its arguments. -/
theorem AgreeOn.enter (h : AgreeOn names store other) {args : List Atom}
    (hargs : ∀ arg ∈ args, arg ∈ names) (registry : Registry) (program : Atom) :
    other.enter registry program args = store.enter registry program args := by
  simp only [Store.enter, h.bind hargs]

end Store

namespace Output

variable {names : List Atom} {store other : Store}

theorem itemText_agree (h : Store.AgreeOn names store other) {t : Token}
    (hname : t.kind ≠ .number → t.text ∈ names) : itemText other t = itemText store t := by
  unfold itemText
  split
  · rfl
  · next hkind => rw [h t.text (hname hkind)]

theorem parts_agree (h : Store.AgreeOn names store other) {items : List Token}
    (hitems : ∀ t ∈ items, t.kind ∈ itemKinds)
    (hnames : ∀ name ∈ tokenVariables items, name ∈ names) (afterString : Bool) :
    parts other afterString items = parts store afterString items := by
  induction items generalizing afterString with
  | nil => rfl
  | cons t items ih =>
    have hrest := ih (fun u hu => hitems u (by simp [hu])) fun name hname =>
      hnames name (tokenVariables_subset_cons t items hname)
    rw [parts, parts]
    split
    · rw [hrest]
    · next hstring =>
      have hitem : t.kind ≠ .number → t.text ∈ names := by
        intro hnumber
        have hkind : t.kind = .identifier := by
          simpa [itemKinds, hstring, hnumber] using hitems t (by simp)
        exact hnames t.text (by simp [tokenVariables, hkind])
      rw [itemText_agree h hitem, hrest]

theorem render_agree (h : Store.AgreeOn names store other) {items : List Token}
    (hitems : ∀ t ∈ items, t.kind ∈ itemKinds)
    (hnames : ∀ name ∈ tokenVariables items, name ∈ names) :
    render other items = render store items := by
  rw [render, render, parts_agree h hitems hnames]

end Output

namespace Machine

/-- The machines differ in their variables only and agree on `names`; of the variables that are not
among `targets`, one has those of `base` and the other those of `base'`. -/
structure Confined (names targets : List Atom) (base base' : Store) (m m' : Machine) : Prop where
  rest : m' = { m with store := m'.store }
  agree : Store.AgreeOn names m.store m'.store
  frame : ∀ name : Atom, name.key ∉ targets.map Atom.key →
    m.store.get? name = base.get? name ∧ m'.store.get? name = base'.get? name

def confinedBond (names targets : List Atom) (base base' : Store) : Bond where
  Between := Confined names targets base base'
  Broken := Confined names targets base base'
  Errors := Eq
  broken := id

section Steps

variable {names targets : List Atom} {base base' : Store}

theorem confined_together : (confinedBond names targets base base').Together := fun _ _ _ => id

/-- A change that neither sees nor touches the variables. -/
theorem modify_confined {f : Machine → Machine} (h : ∀ (m : Machine) (store : Store),
      f { m with store } = { f m with store }) :
    (confinedBond names targets base base').Couples Eq (Action.modify f) (Action.modify f) := by
  apply Bond.Couples.modify_together confined_together
  intro m m' hm
  have hstore : (f m).store = m.store := by rw [h m m.store]
  have hstore' : (f m').store = m'.store := by rw [h m' m'.store]
  constructor
  · rw [hm.rest, h m m'.store]
  · rw [hstore, hstore']
    exact hm.agree
  · rw [hstore, hstore']
    exact hm.frame

/-- What is looked up depends on the values of `names` only. -/
theorem ask_confined {α : Type} {q : Machine → Except Error α}
    (hq : ∀ (m : Machine) (other : Store), Store.AgreeOn names m.store other →
      q { m with store := other } = q m) :
    (confinedBond names targets base base').Couples (Same fun _ => True) (ask q) (ask q) := by
  apply Bond.Couples.ask_together confined_together
  intro m m' hm
  rw [hm.rest, hq m m'.store hm.agree]
  exact (Paired.refl fun _ _ => rfl).imp fun _ _ h => ⟨h.1, trivial⟩

theorem setVariable_confined {name : Atom} (hname : name ∈ targets) (value : Int) :
    (confinedBond names targets base base').Couples Eq (setVariable name value)
      (setVariable name value) := by
  apply Bond.Couples.setVariable fun _ => rfl
  apply Bond.Couples.modify_together confined_together
  intro m m' hm
  constructor
  · show { m' with store := m'.store.put name value } = _
    rw [hm.rest]
  · exact hm.agree.put name value
  · intro found hfound
    have hne : name.key ≠ found.key := by
      intro hsame
      apply hfound
      rw [← hsame]
      exact List.mem_map_of_mem hname
    show (m.store.put name value).get? found = _ ∧ (m'.store.put name value).get? found = _
    rw [Store.get?_put, Store.get?_put, if_neg hne, if_neg hne]
    exact hm.frame found hfound

theorem emit_confined (tracing : Tracing) (level : Nat) (text : String) :
    (confinedBond names targets base base').Couples Eq (emit tracing level text)
      (emit tracing level text) :=
  .emit (fun _ => modify_confined fun _ _ => rfl) (fun _ => modify_confined fun _ _ => rfl) level
    text

end Steps

section Runs

variable {names targets : List Atom} {base base' : Store}

def confined (tracing : Tracing) (names targets : List Atom) (base base' : Store) : Alignment where
  bond := confinedBond names targets base base'
  tracing := tracing
  tracing' := tracing
  Read := (· ∈ names)
  Write := (· ∈ targets)
  Value _ := True
  Assigned _ := True
  refl _ := rfl
  numeral _ := trivial
  print _ := modify_confined fun _ _ => rfl
  emit _ := emit_confined tracing _ _
  put ha _ := setVariable_confined ha _
  assign ha _ := .assign (fun _ => rfl) (setVariable_confined ha _) fun _ => emit_confined tracing _ _
  fetch ha := .fetch confined_together (fun _ _ hm => hm.agree _ ha) fun _ _ _ _ _ => trivial
  take _ := by
    apply Bond.Couples.takeLine confined_together fun _ => rfl
    · intro m m' hm
      rw [hm.rest]
    · intro m m' input hm
      refine ⟨?_, hm.agree, hm.frame⟩
      show { m' with input } = _
      rw [hm.rest]

variable {tracing : Tracing}

/-- A call sees its arguments and changes no variable of its caller, whatever the program does. -/
theorem callProgram_confined (tracing : Tracing) (depth : Nat) (program : Atom) {args : List Atom}
    (hargs : ∀ arg ∈ args, arg ∈ names) :
    (confinedBond names targets base base').Couples (Same fun _ => True)
      (callProgram tracing depth program args) (callProgram tracing depth program args) := by
  cases depth with
  | zero => exact .fail rfl
  | succ depth =>
    have hopening : (confinedBond names targets base base').Couples (Same fun _ => True)
        (ask (opening program args)) (ask (opening program args)) := by
      apply ask_confined
      intro m other hagree
      simp only [opening, hagree.enter hargs]
    apply Alignment.callProgram_couples (A := confined tracing names targets base base') rfl hopening
    · rintro entry _ ⟨rfl, _⟩
      exact ⟨rfl, rfl⟩
    · rintro ⟨inner, d⟩ _ ⟨rfl, _⟩
      -- Both bodies run on one and the same machine.
      have hbody : (Bond.diagonal (fun _ => True) fun _ => True).Couples (Same fun _ => True)
          (runBody tracing depth d) (runBody tracing depth d) :=
        Bond.diagonal_couples_iff.mpr fun _ _ =>
          ⟨rfl, trivial, fun _ _ => trivial, fun _ _ => trivial⟩
      apply Bond.Couples.inScope _ hbody
      apply Bond.Nests.of_together confined_together (Bond.diagonal_together _ _)
      · exact fun he => he.1
      · intro m m' hm
        rw [hm.rest]
        exact ⟨rfl, trivial⟩
      · rintro m m' n _ hm ⟨rfl, _⟩
        exact ⟨rfl, hm.agree, hm.frame⟩
      · rintro m m' n _ hm ⟨rfl, _⟩
        exact ⟨rfl, hm.agree, hm.frame⟩

theorem admits_confined (depth : Nat) :
    (confined tracing names targets base base').Admits (callProgram tracing depth)
      (callProgram tracing depth) (Statement.Confined names targets) where
  succ _ := trivial
  assign h := ⟨h.targets _ (by simp [Statement.targets]), trivial⟩
  increment h :=
    ⟨h.targets _ (by simp [Statement.targets]), h.vars _ (by simp [Statement.vars])⟩
  call h := ⟨h.targets _ (by simp [Statement.targets]),
    callProgram_confined tracing depth _ fun arg harg => h.vars arg (by simp [Statement.vars, harg])⟩
  input := by
    intro tokens h t ht hstring
    have hkind : t.kind = .identifier := by
      simpa [targetKinds, hstring] using (h.regular.2 t ht).1
    apply h.targets
    exact List.mem_map_of_mem (List.mem_filter.mpr ⟨ht, by simpa using hkind⟩)
  output := by
    intro items h
    apply ask_confined
    intro m other hagree
    exact Output.render_agree hagree (fun t ht => (h.regular.2 t ht).1) h.vars
  loop h := by
    refine ⟨h.vars _ List.mem_cons_self, ?_⟩
    intro s hs
    constructor
    · exact h.regular.2.mem hs
    · intro name hname
      exact h.vars name (List.mem_cons_of_mem _ (Statement.mem_varsAll hs hname))
    · intro name hname
      exact h.targets name (Statement.mem_targetsAll hs hname)
  define _ := .register rfl (fun _ => rfl) (modify_confined fun _ _ => rfl)

/-- What two runs that are confined come to. -/
theorem confined_ends {α : Type} {x y : Except Error α × Machine}
    (h : (confinedBond names targets base base').Ends Eq x y) :
    ∃ final, y = (x.1, { x.2 with store := final }) ∧ Store.AgreeOn names x.2.store final ∧
      ∀ name : Atom, name.key ∉ targets.map Atom.key →
        x.2.store.get? name = base.get? name ∧ final.get? name = base'.get? name := by
  obtain ⟨hresult, hm⟩ := h.paired confined_together
  exact ⟨y.2.store, Prod.ext hresult.eq.symm hm.rest, hm.agree, hm.frame⟩

theorem confined_self (machine : Machine) : Confined names targets machine.store machine.store
    machine machine :=
  ⟨rfl, fun _ _ => rfl, fun _ _ => ⟨rfl, rfl⟩⟩

/-- A call statement sets its target and nothing else, wherever it comes from. -/
theorem execute_call_confined {depth : Nat} {target callee : Atom} {args : List Atom}
    (hargs : ∀ arg ∈ args, arg ∈ names) (htarget : target ∈ targets) :
    (confinedBond names targets base base').Couples Eq
      (execute tracing (callProgram tracing depth) (.call target callee args))
      (execute tracing (callProgram tracing depth) (.call target callee args)) := by
  rw [execute]
  apply (Bond.Couples.ofExcept (Paired.refl fun _ _ => rfl)).bind
  intro _ _ _
  apply (callProgram_confined tracing depth callee hargs).bind
  rintro value _ ⟨rfl, _⟩
  exact setVariable_confined htarget value

/-- A call that fails leaves every variable of its caller as it was. -/
theorem execute_call_failed {depth : Nat} {target callee : Atom} {args : List Atom}
    {machine after : Machine} {e : Error}
    (h : execute tracing (callProgram tracing depth) (.call target callee args) machine =
      (.error e, after)) (name : Atom) : after.store.get? name = machine.store.get? name := by
  have hcall : (confinedBond args [] machine.store machine.store).Couples Eq
      (callProgram tracing depth callee args) (callProgram tracing depth callee args) :=
    (callProgram_confined tracing depth callee fun _ => id).forget
  obtain ⟨_, _, _, hframe⟩ := confined_ends (hcall.ends (confined_self machine))
  obtain ⟨hkept, _⟩ := hframe name (by simp)
  rw [execute] at h
  cases hready : (Statement.call target callee args).checkReady with
  | error e' =>
    rw [hready] at h
    cases h
    rfl
  | ok _ =>
    rw [hready, Action.bind_ok (Action.ofExcept_ok _ machine)] at h
    cases hrun : callProgram tracing depth callee args machine with
    | mk r next =>
      rw [hrun] at hkept
      cases r with
      | error e' =>
        rw [Action.bind_error hrun] at h
        cases h
        exact hkept
      | ok value =>
        rw [Action.bind_ok hrun, setVariable] at h
        split at h
        · cases h
        · cases h
          exact hkept

end Runs

end Machine

/-- Executing a block of a parsed program from two scopes that agree on the variables of the block
has the same outcome and the same effects, and the scopes agree again; no variable changes that is
not a target in the block. A call changes nothing but its target, and nothing at all if it fails. -/
theorem block_isolated {before registry : Registry} {body block : List Statement}
    (h : ParsedAfter before body registry) (hblock : Statement.Block block body)
    (tracing : Tracing) (machine : Machine) (other : Store)
    (hagree : Store.AgreeOn (Statement.varsAll block) machine.store other) :
    (∃ r after final,
      Machine.runBlock tracing block machine = (r, after) ∧
      Machine.runBlock tracing block { machine with store := other } =
        (r, { after with store := final }) ∧
      Store.AgreeOn (Statement.varsAll block) after.store final ∧
      ∀ name : Atom, name.key ∉ (Statement.targetsAll block).map Atom.key →
        after.store.get? name = machine.store.get? name ∧ final.get? name = other.get? name) ∧
    ∀ target callee args r after,
      Machine.runStatement tracing (.call target callee args) machine = (r, after) →
      ∀ name : Atom, (name.key ≠ target.key ∨ ∃ e, r = .error e) →
        after.store.get? name = machine.store.get? name := by
  constructor
  · have hcouples := (@Machine.admits_confined (Statement.varsAll block) (Statement.targetsAll block)
      machine.store other tracing (Machine.callDepth block machine.registry)).executeBlock
      (Statement.confined_of_mem (hblock.regular h.regular))
    have hstart : Machine.Confined (Statement.varsAll block) (Statement.targetsAll block)
        machine.store other machine { machine with store := other } :=
      ⟨rfl, hagree, fun _ _ => ⟨rfl, rfl⟩⟩
    obtain ⟨final, hother, hfinal, hframe⟩ := Machine.confined_ends (hcouples.ends hstart)
    exact ⟨_, _, final, rfl, hother, hfinal, hframe⟩
  · rintro target callee args r after hrun name (hname | ⟨e, rfl⟩)
    · have hstart : Machine.Confined args [target] machine.store machine.store machine machine :=
        Machine.confined_self machine
      obtain ⟨_, _, _, hframe⟩ := Machine.confined_ends
        ((Machine.execute_call_confined (fun _ => id) List.mem_cons_self).ends hstart)
      obtain ⟨hkept, _⟩ := hframe name (by simpa using hname)
      rw [Machine.runStatement] at hrun
      rwa [hrun] at hkept
    · exact Machine.execute_call_failed hrun name

theorem block_isolated_loop :
    Statement.Block [.call (.text "x") (.text "P") [.text "x"]]
        [.define (.text "P") [.text "a"] [.increment (.text "X0") (.text "a")],
          .assign (.text "x") 2,
          .loop (.text "x") [.call (.text "x") (.text "P") [.text "x"]]] ∧
      ∃ r after final,
        Machine.runBlock ⟨0, false⟩ [.call (.text "x") (.text "P") [.text "x"]]
          { Machine.start [⟨.text "P", [.text "a"], [.increment (.text "X0") (.text "a")]⟩] "" with
            store := [(.text "x", 2), (.text "a", 7)] } = (r, after) ∧
        Machine.runBlock ⟨0, false⟩ [.call (.text "x") (.text "P") [.text "x"]]
          { Machine.start [⟨.text "P", [.text "a"], [.increment (.text "X0") (.text "a")]⟩] "" with
            store := [(.text "X0", 4), (.text "x", 2)] } = (r, { after with store := final }) ∧
        final.get? (.text "x") = after.store.get? (.text "x") ∧
        after.store.get? (.text "a") = some 7 ∧ final.get? (.text "a") = none := by
  have hparsed : ParsedAfter []
      [.define (.text "P") [.text "a"] [.increment (.text "X0") (.text "a")],
        .assign (.text "x") 2,
        .loop (.text "x") [.call (.text "x") (.text "P") [.text "x"]]]
      [⟨.text "P", [.text "a"], [.increment (.text "X0") (.text "a")]⟩] :=
    ⟨"PROGRAM P(a) DO\nX0 := a + 1\nEND\nx := 2\nLOOP x DO\nx := P(x)\nEND", .inl (by cbv)⟩
  have hblock : Statement.Block [.call (.text "x") (.text "P") [.text "x"]]
      [.define (.text "P") [.text "a"] [.increment (.text "X0") (.text "a")],
        .assign (.text "x") 2,
        .loop (.text "x") [.call (.text "x") (.text "P") [.text "x"]]] :=
    @Statement.Block.loop _ _ _ (.text "x") (by simp) .whole
  obtain ⟨⟨r, after, final, hrun, hother, hagree, hframe⟩, -⟩ := block_isolated hparsed hblock
    ⟨0, false⟩
    { Machine.start [⟨.text "P", [.text "a"], [.increment (.text "X0") (.text "a")]⟩] "" with
      store := [(.text "x", 2), (.text "a", 7)] }
    [(.text "X0", 4), (.text "x", 2)] (by decide)
  exact ⟨hblock, r, after, final, hrun, hother, hagree (.text "x") (by decide),
    (hframe (.text "a") (by decide)).1, (hframe (.text "a") (by decide)).2⟩

end LoopLanguage
