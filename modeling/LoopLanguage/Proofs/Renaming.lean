import LoopLanguage.Proofs.Tracing

/-!
Runs do not depend on names. A `Naming` says which name stands for which in one scope, and two
programs that differ in names only are related by `Statement.Renames`: each definition has a naming
of its own, since a call sees nothing of its caller's names. The result variable is the one name
that a run knows, so in the scope of a call it stands for itself; outside of calls it may become
anything. Two such programs print the same, read the same input and fail alike: the names of a scope
are a `Comparison` of their runs, and a call goes from one comparison to another.
-/

namespace LoopLanguage

/-- Names of one scope and the names that stand for them in the other program; `spelled` is what
holds of two such names in any scope. -/
structure Naming (spelled : Atom → Atom → Prop) where
  Rel : Atom → Atom → Prop
  texts : ∀ {a b}, Rel a b → (∃ s, a = .text s) ∧ ∃ s, b = .text s
  apart : ∀ {a a' b b'}, Rel a a' → Rel b b' → (a = b ↔ a' = b')
  spells : ∀ {a b}, Rel a b → spelled a b

variable {spelled : Atom → Atom → Prop}

namespace Naming

variable {names : Naming spelled} {a a' b b' : Atom}

theorem key_eq_iff (ha : names.Rel a a') (hb : names.Rel b b') :
    a.key = b.key ↔ a'.key = b'.key := by
  have happart := names.apart ha hb
  obtain ⟨⟨s, rfl⟩, ⟨s', rfl⟩⟩ := names.texts ha
  obtain ⟨⟨r, rfl⟩, ⟨r', rfl⟩⟩ := names.texts hb
  simpa using happart

theorem checkKey (h : names.Rel a a') : a.checkKey = .ok () ∧ a'.checkKey = .ok () := by
  obtain ⟨⟨s, rfl⟩, ⟨s', rfl⟩⟩ := names.texts h
  exact ⟨rfl, rfl⟩

theorem isWritable (h : names.Rel a a') : a.isWritable = true ∧ a'.isWritable = true := by
  obtain ⟨⟨s, rfl⟩, ⟨s', rfl⟩⟩ := names.texts h
  exact ⟨Atom.isWritable_text s, Atom.isWritable_text s'⟩

theorem shown (h : names.Rel a a') : a.shown = .ok a.display ∧ a'.shown = .ok a'.display :=
  ⟨Atom.shown_of_isWritable (isWritable h).1, Atom.shown_of_isWritable (isWritable h).2⟩

theorem isPresent (h : names.Rel a a') : a.isPresent = true ∧ a'.isPresent = true := by
  obtain ⟨⟨s, rfl⟩, ⟨s', rfl⟩⟩ := names.texts h
  exact ⟨rfl, rfl⟩

end Naming

/-! ## Results and errors -/

/-- The errors are of one category, and an undefined variable is spelled as it may be. -/
inductive Error.Respelled (spelled : Atom → Atom → Prop) : Error → Error → Prop
  | undefined {name name' : Atom} {context context' : Option String} (h : spelled name name') :
      Respelled spelled (.undefinedVariable name context) (.undefinedVariable name' context')
  | other {e e' : Error} (hsame : e'.category = e.category)
      (hother : e.category ≠ .undefinedVariable) : Respelled spelled e e'

theorem Error.Respelled.category_eq {e e' : Error} (h : e.Respelled spelled e') :
    e'.category = e.category := by
  cases h with
  | undefined => rfl
  | other hsame _ => exact hsame

/-- Which part of the work went wrong, if something did. -/
def failure? {α : Type} : Except Error α → Option Error.Category
  | .ok _ => none
  | .error e => some e.category

/-- Both give a value, and the values are related, or both fail alike. -/
abbrev Parallel (spelled : Atom → Atom → Prop) {α β : Type} (V : α → β → Prop) :
    Except Error α → Except Error β → Prop :=
  Paired (Error.Respelled spelled) V

namespace Parallel

variable {α β : Type} {V : α → β → Prop} {r : Except Error α} {r' : Except Error β}

theorem ok_or_error (h : Parallel spelled V r r') :
    (∃ a b, r = .ok a ∧ r' = .ok b ∧ V a b) ∨
      ∃ e e', r = .error e ∧ r' = .error e' ∧ e.Respelled spelled e' := by
  cases h with
  | ok h => exact .inl ⟨_, _, rfl, rfl, h⟩
  | error h => exact .inr ⟨_, _, rfl, rfl, h⟩

/-- A result goes with itself if it is not that a variable is undefined. -/
theorem refl {r : Except Error α} (h : ∀ e, r = .error e → e.category ≠ .undefinedVariable) :
    Parallel spelled Eq r r := by
  cases r with
  | ok a => exact .ok rfl
  | error e => exact .error (.other rfl (h e rfl))

theorem failure?_eq (h : Parallel spelled V r r') : failure? r' = failure? r := by
  cases h with
  | ok => rfl
  | error h => exact congrArg some h.category_eq

theorem write (value : Int) :
    Parallel spelled Eq (Numeral.write value) (Numeral.write value) := by
  by_cases hshort : Numeral.Short value
  · rw [Numeral.write_of_short hshort]
    exact .ok rfl
  · rw [Numeral.write_of_not_short hshort]
    exact .error (.other rfl (by decide))

end Parallel

/-! ## Programs that differ in names -/

/-- Literals and numbers stay, and variables are renamed. -/
inductive Token.Renames (names : Naming spelled) (t t' : Token) : Prop
  | string {s : String} (hkind : t.kind = .string) (hkind' : t'.kind = .string)
      (htext : t.text = .text s) (htext' : t'.text = .text s)
  | number {n : Nat} (hkind : t.kind = .number) (hkind' : t'.kind = .number)
      (hvalue : t.value = .ok n) (hvalue' : t'.value = .ok n)
  | identifier (hkind : t.kind = .identifier) (hkind' : t'.kind = .identifier)
      (htext : names.Rel t.text t'.text)

/-- Names of programs; nothing is asked of their spelling. -/
abbrev ProgramNaming : Type := Naming fun _ _ => True

mutual

/-- The second statement is the first one under other names. -/
inductive Statement.Renames (programs : ProgramNaming) :
    Naming spelled → Statement → Statement → Prop
  | assign {names : Naming spelled} {target target' : Atom} {value : Int}
      (htarget : names.Rel target target') :
      Statement.Renames programs names (.assign target value) (.assign target' value)
  | increment {names : Naming spelled} {target target' operand operand' : Atom}
      (htarget : names.Rel target target') (hoperand : names.Rel operand operand') :
      Statement.Renames programs names (.increment target operand) (.increment target' operand')
  | call {names : Naming spelled} {target target' callee callee' : Atom} {args args' : List Atom}
      (htarget : names.Rel target target') (hcallee : programs.Rel callee callee')
      (hargs : List.Forall₂ names.Rel args args') :
      Statement.Renames programs names (.call target callee args) (.call target' callee' args')
  | input {names : Naming spelled} {targets targets' : List Token}
      (htargets : List.Forall₂ (fun t t' => t.Renames names t' ∧ t.kind ≠ .number)
        targets targets') :
      Statement.Renames programs names (.input targets) (.input targets')
  | output {names : Naming spelled} {items items' : List Token}
      (hitems : List.Forall₂ (Token.Renames names) items items') :
      Statement.Renames programs names (.output items) (.output items')
  | loop {names : Naming spelled} {count count' : Atom} {body body' : List Statement}
      (hcount : names.Rel count count') (hbody : Statement.RenamesAll programs names body body') :
      Statement.Renames programs names (.loop count body) (.loop count' body')
  | define {names inner : Naming spelled} {name name' : Atom} {params params' : List Atom}
      {body body' : List Statement} (hname : programs.Rel name name')
      (hresult : inner.Rel Store.result Store.result)
      (hparams : List.Forall₂ inner.Rel params params')
      (hbody : Statement.RenamesAll programs inner body body') :
      Statement.Renames programs names (.define name params body) (.define name' params' body')

inductive Statement.RenamesAll (programs : ProgramNaming) :
    Naming spelled → List Statement → List Statement → Prop
  | nil {names : Naming spelled} : Statement.RenamesAll programs names [] []
  | cons {names : Naming spelled} {s s' : Statement} {rest rest' : List Statement}
      (hs : Statement.Renames programs names s s')
      (hrest : Statement.RenamesAll programs names rest rest') :
      Statement.RenamesAll programs names (s :: rest) (s' :: rest')

end

/-- The second definition is the first one under other names. -/
def Definition.Renames (spelled : Atom → Atom → Prop) (programs : ProgramNaming)
    (d d' : Definition) : Prop :=
  programs.Rel d.name d'.name ∧ ∃ names : Naming spelled,
    names.Rel Store.result Store.result ∧ List.Forall₂ names.Rel d.params d'.params ∧
      Statement.RenamesAll programs names d.body d'.body

/-- The same programs in the same order, under other names. -/
def Registry.Renames (spelled : Atom → Atom → Prop) (programs : ProgramNaming) :
    Registry → Registry → Prop :=
  List.Forall₂ (Definition.Renames spelled programs)

variable {programs : ProgramNaming} {names : Naming spelled}

theorem Statement.RenamesAll.forall₂ : ∀ {body body' : List Statement},
    Statement.RenamesAll programs names body body' →
      List.Forall₂ (Statement.Renames programs names) body body'
  | _, _, .nil => .nil
  | _, _, .cons hs hrest => .cons hs hrest.forall₂

theorem Statement.Renames.checkReady {s s' : Statement} (h : s.Renames programs names s') :
    s.checkReady = .ok () ∧ s'.checkReady = .ok () := by
  cases h with
  | assign htarget =>
    simp [Statement.checkReady, form?, isReady, Naming.isPresent htarget]
  | increment htarget hoperand =>
    simp [Statement.checkReady, form?, isReady, Naming.isPresent htarget,
      Naming.isPresent hoperand]
  | call htarget hcallee =>
    simp [Statement.checkReady, form?, isReady, Naming.isPresent htarget, Naming.isPresent hcallee]
  | input => exact ⟨rfl, rfl⟩
  | output => exact ⟨rfl, rfl⟩
  | loop hcount => simp [Statement.checkReady, form?, isReady, Naming.isPresent hcount]
  | define hname => simp [Statement.checkReady, form?, isReady, Naming.isPresent hname]

namespace Registry.Renames

variable {registry other : Registry} {name name' : Atom}

theorem find? (h : Registry.Renames spelled programs registry other)
    (hname : programs.Rel name name') :
    (registry.find? name = none ∧ other.find? name' = none) ∨
      ∃ d d', registry.find? name = some d ∧ other.find? name' = some d' ∧
        d.Renames spelled programs d' := by
  induction h with
  | nil => exact .inl ⟨rfl, rfl⟩
  | @cons d d' registry other hd _ ih =>
    have hkey := Naming.key_eq_iff hd.1 hname
    by_cases hsame : d.name.key = name.key
    · exact .inr ⟨d, d', by simp [Registry.find?, hsame], by simp [Registry.find?, hkey.mp hsame],
        hd⟩
    · have hsame' : d'.name.key ≠ name'.key := fun h => hsame (hkey.mpr h)
      have hskip : Registry.find? (d :: registry) name = Registry.find? registry name := by
        simp [Registry.find?, hsame]
      have hskip' : Registry.find? (d' :: other) name' = Registry.find? other name' := by
        simp [Registry.find?, hsame']
      rw [hskip, hskip']
      exact ih

theorem lookup (h : Registry.Renames spelled programs registry other)
    (hname : programs.Rel name name') :
    Parallel spelled (Definition.Renames spelled programs) (registry.lookup name)
      (other.lookup name') := by
  obtain ⟨hkey, hkey'⟩ := Naming.checkKey hname
  unfold Registry.lookup
  rw [hkey, hkey']
  rcases h.find? hname with ⟨hfind, hfind'⟩ | ⟨d, d', hfind, hfind', hd⟩
  · rw [hfind, hfind']
    obtain ⟨⟨s, rfl⟩, ⟨s', rfl⟩⟩ := programs.texts hname
    exact .error (.other rfl nofun)
  · rw [hfind, hfind']
    exact .ok hd

theorem snoc (h : Registry.Renames spelled programs registry other) {d d' : Definition}
    (hd : d.Renames spelled programs d') :
    Registry.Renames spelled programs (registry ++ [d]) (other ++ [d']) :=
  List.rel_append h (.cons hd .nil)

theorem including (h : Registry.Renames spelled programs registry other) {d d' : Definition}
    (hd : d.Renames spelled programs d') :
    Registry.Renames spelled programs (Machine.including d registry)
      (Machine.including d' other) := by
  unfold Machine.including
  rcases h.find? hd.1 with ⟨hfind, hfind'⟩ | ⟨_, _, hfind, hfind', _⟩
  · rw [hfind, hfind']
    exact h.snoc hd
  · rw [hfind, hfind']
    exact h

end Registry.Renames

/-! ## Scopes -/

/-- The same values in the same order, under other names. -/
def Store.Renames (names : Naming spelled) : Store → Store → Prop :=
  List.Forall₂ fun entry entry' => names.Rel entry.1 entry'.1 ∧ entry'.2 = entry.2

namespace Store.Renames

variable {store other : Store} {a a' : Atom}

theorem get? (h : store.Renames names other) (ha : names.Rel a a') :
    other.get? a' = store.get? a := by
  induction h with
  | nil => rfl
  | @cons entry entry' store other hentry _ ih =>
    obtain ⟨n, v⟩ := entry
    obtain ⟨n', v'⟩ := entry'
    obtain ⟨hname, rfl⟩ := hentry
    have hkey := Naming.key_eq_iff hname ha
    rw [get?_cons, get?_cons, ih]
    simp only [hkey]

theorem put (h : store.Renames names other) (ha : names.Rel a a') (value : Int) :
    (store.put a value).Renames names (other.put a' value) := by
  induction h with
  | nil => exact .cons ⟨ha, rfl⟩ .nil
  | @cons entry entry' store other hentry hrest ih =>
    obtain ⟨n, v⟩ := entry
    obtain ⟨n', v'⟩ := entry'
    have hkey := Naming.key_eq_iff hentry.1 ha
    unfold Store.put
    by_cases hsame : n.key = a.key
    · rw [if_pos hsame, if_pos (hkey.mp hsame)]
      exact .cons ⟨hentry.1, rfl⟩ hrest
    · rw [if_neg hsame, if_neg fun h => hsame (hkey.mpr h)]
      exact .cons hentry ih

theorem write (h : store.Renames names other) (ha : names.Rel a a') (value : Int) :
    Parallel spelled (Store.Renames names) (store.write a value) (other.write a' value) := by
  obtain ⟨hkey, hkey'⟩ := Naming.checkKey ha
  unfold Store.write
  rw [hkey, hkey']
  exact .ok (h.put ha value)

/-- Binding goes from the names of the caller to those of the call. -/
theorem bind (h : store.Renames names other) {called : Naming spelled} {program program' : Atom}
    (hprogram : programs.Rel program program') {params params' args args' : List Atom}
    (hparams : List.Forall₂ called.Rel params params') (hargs : List.Forall₂ names.Rel args args')
    {inner inner' : Store} (hinner : inner.Renames called inner') :
    Parallel spelled (Store.Renames called) (store.bind program inner params args)
      (other.bind program' inner' params' args') := by
  induction hparams generalizing args args' inner inner' with
  | nil => exact .ok hinner
  | @cons param param' params params' hparam _ ih =>
    cases hargs with
    | nil => exact .ok hinner
    | @cons arg arg' args args' harg hargs =>
      have hspelled := names.spells harg
      obtain ⟨hkey, hkey'⟩ := Naming.checkKey harg
      obtain ⟨hshown, hshown'⟩ := Naming.shown harg
      obtain ⟨hprogramShown, hprogramShown'⟩ := Naming.shown hprogram
      unfold Store.bind
      rw [hkey, hkey', h.get? harg]
      cases store.get? arg with
      | some value =>
        apply (hinner.write hparam value).bind
        intro next next' hnext
        exact ih hargs hnext
      | none =>
        rw [hshown, hshown', hprogramShown, hprogramShown']
        exact .error (.undefined hspelled)

theorem enter (h : store.Renames names other) {registry registry' : Registry}
    {called : Naming spelled} (hresult : called.Rel Store.result Store.result)
    {program program' : Atom} (hprogram : programs.Rel program program') {d d' : Definition}
    (hlookup : registry.lookup program = .ok d) (hlookup' : registry'.lookup program' = .ok d')
    (hparams : List.Forall₂ called.Rel d.params d'.params) {args args' : List Atom}
    (hargs : List.Forall₂ names.Rel args args') :
    Parallel spelled (Store.Renames called) (store.enter registry program args)
      (other.enter registry' program' args') := by
  unfold Store.enter
  rw [hlookup, hlookup']
  show Parallel spelled _ (if _ then _ else _) (if _ then _ else _)
  rw [hparams.length_eq, hargs.length_eq]
  split
  · obtain ⟨⟨s, rfl⟩, ⟨s', rfl⟩⟩ := programs.texts hprogram
    exact .error (.other rfl nofun)
  · apply (h.bind hprogram hparams hargs .nil).bind
    intro inner inner' hinner
    rw [hinner.get? hresult]
    split
    · exact .ok hinner
    · exact .ok (hinner.put hresult 0)

end Store.Renames

namespace Output

variable {store other : Store}

theorem itemText_renames (hstore : store.Renames names other) {t t' : Token}
    (h : t.Renames names t') (hkind : t.kind ≠ .string) :
    Parallel spelled Eq (itemText store t) (itemText other t') := by
  unfold itemText
  cases h with
  | string hstring => exact absurd hstring hkind
  | number hnumber hnumber' hvalue hvalue' =>
    rw [if_pos hnumber, if_pos hnumber', hvalue, hvalue']
    apply Paired.bind (V := Eq) (.ok rfl)
    rintro value _ rfl
    exact Parallel.write value
  | identifier hname hname' htext =>
    obtain ⟨hkey, hkey'⟩ := Naming.checkKey htext
    obtain ⟨hshown, hshown'⟩ := Naming.shown htext
    rw [if_neg (by simp [hname]), if_neg (by simp [hname']), hkey, hkey', hstore.get? htext]
    apply Paired.bind (V := Eq) (.ok rfl)
    intro _ _ _
    cases store.get? t.text with
    | some value => exact Parallel.write value
    | none =>
      rw [hshown, hshown']
      exact .ok rfl

theorem parts_renames (hstore : store.Renames names other) {items items' : List Token}
    (h : List.Forall₂ (Token.Renames names) items items') (afterString : Bool) :
    Parallel spelled Eq (parts store afterString items) (parts other afterString items') := by
  induction h generalizing afterString with
  | nil => exact .ok rfl
  | @cons t t' items items' ht _ ih =>
    unfold parts
    by_cases hkind : t.kind = .string
    · cases ht with
      | string _ hkind' htext htext' =>
        rw [if_pos hkind, if_pos hkind', htext, htext']
        apply (ih true).bind
        rintro rest _ rfl
        exact .ok rfl
      | number hnumber => exact absurd (hkind.symm.trans hnumber) (by decide)
      | identifier hname => exact absurd (hkind.symm.trans hname) (by decide)
    · have hkind' : t'.kind ≠ .string := by
        cases ht with
        | string hstring => exact absurd hstring hkind
        | number _ hnumber => simp [hnumber]
        | identifier _ hname => simp [hname]
      rw [if_neg hkind, if_neg hkind']
      apply (itemText_renames hstore ht hkind).bind
      rintro text _ rfl
      apply (ih false).bind
      rintro rest _ rfl
      exact .ok rfl

theorem join_eq_error {pieces : List Atom} {e : Error} (h : join pieces = .error e) :
    e = .notText := by
  induction pieces with
  | nil => cases h
  | cons piece pieces ih =>
    cases piece with
    | text s =>
      cases hrest : join pieces with
      | ok rest =>
        rw [join, hrest] at h
        cases h
      | error e' =>
        rw [join, hrest] at h
        cases h
        exact ih hrest
    | absent => cases h; rfl
    | other => cases h; rfl

theorem render_renames (hstore : store.Renames names other) {items items' : List Token}
    (h : List.Forall₂ (Token.Renames names) items items') :
    Parallel spelled Eq (render store items) (render other items') := by
  apply (parts_renames hstore h true).bind
  rintro pieces _ rfl
  apply Parallel.refl
  intro e he
  rw [join_eq_error he]
  decide

end Output

namespace Machine

/-- The machines differ in names and in what was traced. -/
structure Renames (programs : ProgramNaming) (names : Naming spelled) (machine other : Machine) :
    Prop where
  store : machine.store.Renames names other.store
  registry : Registry.Renames spelled programs machine.registry other.registry
  input : other.input = machine.input
  output : other.output = machine.output

/-- From machines that differ in names the steps lead to such machines again, also if they fail,
and both fail alike or give values that are related by `V`. -/
def Tracks {α β : Type} (programs : ProgramNaming) (names : Naming spelled) (V : α → β → Prop)
    (act : Action Machine α) (other : Action Machine β) : Prop :=
  ∀ machine machine', machine.Renames programs names machine' →
    Parallel spelled V (act machine).1 (other machine').1 ∧
      (act machine).2.Renames programs names (other machine').2

def renamingBond (programs : ProgramNaming) (names : Naming spelled) : Bond where
  Between := Renames programs names
  Broken := Renames programs names
  Errors := Error.Respelled spelled
  broken := id

theorem renaming_together : (renamingBond programs names).Together := fun _ _ _ => id

theorem tracks_of_couples {α β : Type} {V : α → β → Prop} {act : Action Machine α}
    {other : Action Machine β} (h : (renamingBond programs names).Couples V act other) :
    Tracks programs names V act other :=
  fun _ _ hmachine => (h.ends hmachine).paired renaming_together

section Steps

variable {tracing : Tracing} {a a' : Atom}

theorem modify_renaming {f g : Machine → Machine}
    (h : ∀ m m' : Machine, m.Renames programs names m' → (f m).Renames programs names (g m')) :
    (renamingBond programs names).Couples Eq (Action.modify f) (Action.modify g) :=
  .modify_together renaming_together h

theorem ask_renaming {α β : Type} {V : α → β → Prop} {q : Machine → Except Error α}
    {q' : Machine → Except Error β}
    (h : ∀ m m' : Machine, m.Renames programs names m' → Parallel spelled V (q m) (q' m')) :
    (renamingBond programs names).Couples V (ask q) (ask q') :=
  .ask_together renaming_together h

theorem print_renaming (text : String) :
    (renamingBond programs names).Couples Eq (print text) (print text) :=
  modify_renaming fun _ _ h => ⟨h.store, h.registry, h.input, congrArg (· ++ text) h.output⟩

/-- Messages show names, but they are not printed. -/
theorem emit_renaming (hready : tracing.Ready) {level : Nat} (hlevel : 0 < level)
    (text text' : String) :
    (renamingBond programs names).Couples Eq (emit tracing level text)
      (emit tracing level text') := by
  unfold emit
  split
  · exact .pure rfl
  · next hlow =>
    rw [if_pos (hready (by omega)), if_pos (hready (by omega))]
    exact modify_renaming fun _ _ h => ⟨h.store, h.registry, h.input, h.output⟩

theorem setVariable_renaming (ha : names.Rel a a') (value : Int) :
    (renamingBond programs names).Couples Eq (setVariable a value) (setVariable a' value) := by
  obtain ⟨hkey, hkey'⟩ := Naming.checkKey ha
  have hput : setVariable a value =
      Action.modify fun m => { m with store := m.store.put a value } :=
    funext fun _ => setVariable_of_key hkey value
  have hput' : setVariable a' value =
      Action.modify fun m => { m with store := m.store.put a' value } :=
    funext fun _ => setVariable_of_key hkey' value
  rw [hput, hput']
  exact modify_renaming fun _ _ h => ⟨h.store.put ha value, h.registry, h.input, h.output⟩

theorem assign_renaming (hready : tracing.Ready) (ha : names.Rel a a') (value : Int) :
    (renamingBond programs names).Couples Eq (assign tracing a value) (assign tracing a' value) := by
  obtain ⟨hshown, hshown'⟩ := Naming.shown ha
  unfold assign
  rw [hshown, hshown']
  apply (setVariable_renaming ha value).bind
  intro _ _ _
  apply (Bond.Couples.ofExcept (V := fun _ _ => True) (.ok trivial)).bind
  intro _ _ _
  apply (Bond.Couples.ofExcept (Parallel.write value)).bind
  intro _ _ _
  exact emit_renaming hready (by omega) _ _

theorem takeLine_renaming (ha : names.Rel a a') :
    (renamingBond programs names).Couples Eq (takeLine a) (takeLine a') := by
  apply Bond.Couples.of_ends renaming_together
  intro m m' hm
  unfold takeLine
  rw [hm.input]
  cases m.input with
  | nil =>
    obtain ⟨⟨s, rfl⟩, ⟨s', rfl⟩⟩ := names.texts ha
    exact .error (.other rfl nofun) hm
  | cons line rest => exact .ok rfl ⟨hm.store, hm.registry, rfl, hm.output⟩

/-- An operand without a value is told by its name. -/
theorem noOperand_renaming {target target' : Atom} (htarget : names.Rel target target')
    (ha : names.Rel a a') :
    Parallel spelled (Same fun _ => True) (noOperand target a) (noOperand target' a') := by
  have hspelled := names.spells ha
  obtain ⟨⟨s, rfl⟩, ⟨s', rfl⟩⟩ := names.texts ha
  obtain ⟨⟨r, rfl⟩, ⟨r', rfl⟩⟩ := names.texts htarget
  unfold noOperand
  rw [Statement.source, Statement.source]
  exact .error (.undefined hspelled)

/-- Runs in a scope with these names. -/
def renamed (hready : tracing.Ready) (programs : ProgramNaming) (names : Naming spelled) :
    Comparison where
  bond := renamingBond programs names
  tracing := tracing
  tracing' := tracing
  Name a a' := names.Rel a a' ∨ programs.Rel a a'
  Read := names.Rel
  Write := names.Rel
  Value _ := True
  Assigned _ := True
  plain := False
  read_name := .inl
  write_name := .inl
  refl _ hcategory := .other rfl hcategory
  key := by
    rintro a a' (ha | ha)
    · rw [(Naming.checkKey ha).1, (Naming.checkKey ha).2]
      exact .ok rfl
    · rw [(Naming.checkKey ha).1, (Naming.checkKey ha).2]
      exact .ok rfl
  shown := by
    rintro a a' (ha | ha)
    · rw [(Naming.shown ha).1, (Naming.shown ha).2]
      exact .ok False.elim
    · rw [(Naming.shown ha).1, (Naming.shown ha).2]
      exact .ok False.elim
  undefined := by
    intro a a' ha
    have hspelled := names.spells ha
    obtain ⟨⟨s, rfl⟩, ⟨s', rfl⟩⟩ := names.texts ha
    exact .undefined hspelled
  uncounted := by
    intro a a' ha
    obtain ⟨⟨s, rfl⟩, ⟨s', rfl⟩⟩ := names.texts ha
    exact .other rfl nofun
  unread := by
    intro a a' line ha
    obtain ⟨⟨s, rfl⟩, ⟨s', rfl⟩⟩ := names.texts ha
    exact .other rfl nofun
  operand := noOperand_renaming
  numeral _ := trivial
  print := print_renaming
  emit hproper _ := emit_renaming hready hproper.level_pos _ _
  put ha _ := setVariable_renaming ha _
  assign ha _ := assign_renaming hready ha _
  fetch ha := ask_renaming fun _ _ h => .ok ⟨(h.store.get? ha).symm, fun _ _ => trivial⟩
  take := takeLine_renaming

theorem register_renaming {d d' : Definition} (hd : d.Renames spelled programs d') :
    (renamingBond programs names).Couples Eq (register d) (register d') := by
  obtain ⟨hkey, hkey'⟩ := Naming.checkKey hd.1
  have hadd : register d = Action.modify fun m => { m with registry := including d m.registry } :=
    funext fun _ => register_of_key hkey
  have hadd' : register d' =
      Action.modify fun m => { m with registry := including d' m.registry } :=
    funext fun _ => register_of_key hkey'
  rw [hadd, hadd']
  exact modify_renaming fun _ _ h => ⟨h.store, h.registry.including hd, h.input, h.output⟩

theorem bindings_renaming {called : Naming spelled} {params params' : List Atom}
    (hparams : List.Forall₂ called.Rel params params') {inner inner' : Store}
    (hinner : inner.Renames called inner') :
    Parallel spelled (fun _ _ => True) (bindings params inner) (bindings params' inner') := by
  unfold bindings
  induction hparams with
  | nil => exact .ok trivial
  | @cons param param' params params' hparam _ ih =>
    obtain ⟨hshown, hshown'⟩ := Naming.shown hparam
    rw [List.mapM_cons, List.mapM_cons, hshown, hshown', hinner.get? hparam]
    apply Paired.bind (V := fun _ _ => True)
    · apply Paired.bind (V := fun _ _ => True) (.ok trivial)
      intro _ _ _
      exact (Parallel.write _).bind fun _ _ _ => .ok trivial
    · intro _ _ _
      exact ih.bind fun _ _ _ => .ok trivial

/-- What calls under other names enter: scopes and programs with names of their own, among which the
result variable keeps its name. -/
def Entered (spelled : Atom → Atom → Prop) (programs : ProgramNaming)
    (entry entry' : Store × Definition) : Prop :=
  ∃ called : Naming spelled, called.Rel Store.result Store.result ∧
    entry.1.Renames called entry'.1 ∧
    List.Forall₂ called.Rel entry.2.params entry'.2.params ∧
    Statement.RenamesAll programs called entry.2.body entry'.2.body

theorem opening_renaming {m m' : Machine} (h : m.Renames programs names m')
    (ha : programs.Rel a a') {args args' : List Atom} (hargs : List.Forall₂ names.Rel args args') :
    Parallel spelled (Entered spelled programs) (opening a args m) (opening a' args' m') := by
  unfold opening
  rcases (h.registry.lookup ha).ok_or_error with
    ⟨d, d', hlookup, hlookup', hd⟩ | ⟨e, e', hlookup, hlookup', he⟩
  · obtain ⟨_, called, hresult, hparams, hbody⟩ := hd
    rw [hlookup, hlookup']
    apply (h.store.enter hresult ha hlookup hlookup' hparams hargs).bind
    intro inner inner' hinner
    exact .ok ⟨called, hresult, hinner, hparams, hbody⟩
  · unfold Store.enter
    rw [hlookup, hlookup']
    exact .error he

end Steps

section Runs

variable {tracing : Tracing} {call other : Atom → List Atom → Action Machine Int}

/-- Calls under other names do the same in every scope. -/
def CallsTrack (spelled : Atom → Atom → Prop) (programs : ProgramNaming)
    (call other : Atom → List Atom → Action Machine Int) : Prop :=
  ∀ (names : Naming spelled) {callee callee' : Atom} {args args' : List Atom},
    programs.Rel callee callee' → List.Forall₂ names.Rel args args' →
      (renamingBond programs names).Couples (Same fun _ => True) (call callee args)
        (other callee' args')

theorem target_renaming (hready : tracing.Ready) {t t' : Token} (h : t.Renames names t')
    (hnumber : t.kind ≠ .number) : (renamed hready programs names).Target t t' := by
  cases h with
  | string hkind hkind' htext htext' =>
    apply Comparison.Target.prompt hkind hkind'
    rw [htext, htext']
    exact .ok rfl
  | number hkind => exact absurd hkind hnumber
  | identifier hkind hkind' htext => exact .name (by simp [hkind]) (by simp [hkind']) htext

/-- A statement under other names stands for the statement, if calls do. -/
theorem accords_renaming (hready : tracing.Ready)
    (hcall : CallsTrack spelled programs call other) :
    (renamed hready programs names).Accords call other (Statement.Renames programs names) where
  ready h := by
    rw [h.checkReady.1, h.checkReady.2]
    exact .ok rfl
  succ _ := trivial
  assign h := by
    cases h with
    | assign htarget => exact ⟨_, rfl, htarget, trivial⟩
  increment h := by
    cases h with
    | increment htarget hoperand => exact ⟨_, _, rfl, htarget, hoperand⟩
  call h := by
    cases h with
    | call htarget hcallee hargs => exact ⟨_, _, _, rfl, htarget, hcall names hcallee hargs⟩
  input h := by
    cases h with
    | input htargets =>
      exact ⟨_, rfl, htargets.imp fun _ _ ht => target_renaming hready ht.1 ht.2⟩
  output h := by
    cases h with
    | output hitems =>
      exact ⟨_, rfl, ask_renaming fun _ _ hm => Output.render_renames hm.store hitems⟩
  loop h := by
    cases h with
    | loop hcount hbody => exact ⟨_, _, rfl, hcount, hbody.forall₂⟩
  define h := by
    cases h with
    | define hname hresult hparams hbody =>
      exact ⟨_, _, _, rfl, register_renaming ⟨hname, _, hresult, hparams, hbody⟩⟩
  other h hform := by
    cases h <;> cases hform

theorem executeBlock_renaming (hready : tracing.Ready)
    (hcall : CallsTrack spelled programs call other) {body body' : List Statement}
    (hbody : Statement.RenamesAll programs names body body') :
    (renamingBond programs names).Couples Eq (executeBlock tracing call body)
      (executeBlock tracing other body') :=
  Comparison.executeBlock_couples (accords_renaming hready hcall) body hbody.forall₂

/-- What a call gives does not depend on names, since the result variable keeps its own. -/
theorem callProgram_renaming (hready : tracing.Ready) (depth : Nat) :
    CallsTrack spelled programs (callProgram tracing depth) (callProgram tracing depth) := by
  induction depth with
  | zero =>
    intro names callee callee' args args' _ _
    exact .fail (.other rfl nofun)
  | succ depth ih =>
    intro names callee callee' args args' hcallee hargs
    apply Comparison.callProgram_couples (C := renamed hready programs names) (.inr hcallee)
    · apply (renamed hready programs names).enterCall_couples
        (ask_renaming fun _ _ hm => opening_renaming hm hcallee hargs)
      rintro entry entry' ⟨called, _, hinner, hparams, _⟩
      apply (renamed hready programs names).traceCall_couples rfl (.inr hcallee)
      exact (bindings_renaming hparams hinner).imp fun _ _ _ => False.elim
    · rintro ⟨inner, d⟩ ⟨inner', d'⟩ ⟨called, hresult, hinner, _, hbody⟩
      -- The scope of a call has names of its own; those of the caller come back after it.
      have hrun : (renamingBond programs called).Couples (Same fun _ => True)
          (runBody tracing depth d) (runBody tracing depth d') :=
        @Comparison.runBody_couples (renamed hready programs called) depth depth d d' hresult
          (executeBlock_renaming hready ih hbody)
      apply Bond.Couples.inScope _ hrun
      apply Bond.Nests.of_together renaming_together renaming_together
      · exact id
      · exact fun hm => ⟨hinner, hm.registry, hm.input, hm.output⟩
      · exact fun hm hn => ⟨hm.store, hn.registry, hn.input, hn.output⟩
      · exact fun hm hn => ⟨hm.store, hn.registry, hn.input, hn.output⟩

mutual

theorem definitionCount_renames : ∀ {names : Naming spelled} {s s' : Statement},
    s.Renames programs names s' → definitionCount s' = definitionCount s
  | _, _, _, .loop _ hbody => definitionCounts_renames hbody
  | _, _, _, .define _ _ _ hbody => congrArg (· + 1) (definitionCounts_renames hbody)
  | _, _, _, .assign _ | _, _, _, .increment _ _ | _, _, _, .call _ _ _ | _, _, _, .input _
  | _, _, _, .output _ => rfl

theorem definitionCounts_renames : ∀ {names : Naming spelled} {body body' : List Statement},
    Statement.RenamesAll programs names body body' → definitionCounts body' = definitionCounts body
  | _, _, _, .nil => rfl
  | _, _, _, .cons hs hrest => by
    rw [definitionCounts, definitionCounts, definitionCount_renames hs,
      definitionCounts_renames hrest]

end

theorem callDepth_renames {registry registry' : Registry}
    (hregistry : Registry.Renames spelled programs registry registry') {body body' : List Statement}
    (hbody : Statement.RenamesAll programs names body body') :
    callDepth body' registry' = callDepth body registry := by
  have hfold : registry'.foldr (fun d n => definitionCounts d.body + 1 + n) 0 =
      registry.foldr (fun d n => definitionCounts d.body + 1 + n) 0 := by
    induction hregistry with
    | nil => rfl
    | cons hd _ ih =>
      obtain ⟨_, _, _, _, hinner⟩ := hd
      rw [List.foldr_cons, List.foldr_cons, ih, definitionCounts_renames hinner]
  unfold callDepth
  rw [hfold, definitionCounts_renames hbody]

/-- A run gives the same result if the result variable keeps its name. -/
theorem run_tracks (hready : tracing.Ready) {body body' : List Statement}
    (hbody : Statement.RenamesAll programs names body body') :
    Tracks programs names (fun r r' => names.Rel Store.result Store.result → r' = r)
      (run tracing body) (run tracing body') := by
  apply tracks_of_couples
  rw [run_eq, run_eq]
  have hblock : (renamingBond programs names).Couples Eq (runBlock tracing body)
      (runBlock tracing body') := by
    apply Comparison.runBlock_couples
    · exact fun depth => executeBlock_renaming hready (callProgram_renaming hready depth) hbody
    · exact fun _ _ hm => callDepth_renames hm.registry hbody
  apply hblock.bind
  intro _ _ _
  exact ask_renaming fun _ _ hm => .ok hm.store.get?

end Runs

theorem start_renames {registry registry' : Registry}
    (h : Registry.Renames spelled programs registry registry') (input : String) :
    (start registry input).Renames programs names (start registry' input) :=
  ⟨.nil, h, rfl, rfl⟩

end Machine

namespace Statement

mutual

/-- Under other names the same programs are enrolled. -/
theorem Renames.enroll : ∀ {names : Naming spelled} {s s' : Statement}
    {registry other after : Registry}, s.Renames programs names s' →
    Registry.Renames spelled programs registry other → Statement.enroll s registry = some after →
      ∃ after', Statement.enroll s' other = some after' ∧
        Registry.Renames spelled programs after after'
  | _, _, _, _, other, _, .call _ hcallee hargs, hregistry, h => by
    obtain ⟨d, hfind, hlength, rfl⟩ := enroll_call.mp h
    rcases hregistry.find? hcallee with ⟨hnone, _⟩ | ⟨e, e', hfound, hfind', _, _, _, hparams, _⟩
    · rw [hfind] at hnone
      cases hnone
    · obtain rfl := Option.some.inj (hfind.symm.trans hfound)
      have hlength' := hparams.length_eq
      have hargsLength := hargs.length_eq
      exact ⟨other, enroll_call.mpr ⟨e', hfind', by omega, rfl⟩, hregistry⟩
  | _, _, _, _, _, _, .loop _ hbody, hregistry, h => RenamesAll.enrollAll hbody hregistry h
  | _, _, _, _, _, _, .define hname hresult hparams hbody, hregistry, h => by
    obtain ⟨inner, hinner, hnew, rfl⟩ := enroll_define.mp h
    obtain ⟨inner', hinner', hprograms⟩ := RenamesAll.enrollAll hbody hregistry hinner
    rcases hprograms.find? hname with ⟨_, hnew'⟩ | ⟨d, _, hfound, _, _⟩
    · exact ⟨_, enroll_define.mpr ⟨inner', hinner', hnew', rfl⟩,
        hprograms.snoc ⟨hname, _, hresult, hparams, hbody⟩⟩
    · rw [hnew] at hfound
      cases hfound
  | _, _, _, _, other, _, .assign _, hregistry, h | _, _, _, _, other, _, .increment _ _, hregistry, h
  | _, _, _, _, other, _, .input _, hregistry, h | _, _, _, _, other, _, .output _, hregistry, h => by
    cases h
    exact ⟨other, rfl, hregistry⟩

theorem RenamesAll.enrollAll : ∀ {names : Naming spelled} {body body' : List Statement}
    {registry other after : Registry}, RenamesAll programs names body body' →
    Registry.Renames spelled programs registry other →
    Statement.enrollAll body registry = some after →
      ∃ after', Statement.enrollAll body' other = some after' ∧
        Registry.Renames spelled programs after after'
  | _, _, _, _, other, _, .nil, hregistry, h => by
    cases h
    exact ⟨other, rfl, hregistry⟩
  | _, _, _, _, _, _, .cons hs hrest, hregistry, h => by
    obtain ⟨next, hnext, hafter⟩ := enrollAll_cons.mp h
    obtain ⟨next', hnext', hprograms⟩ := hs.enroll hregistry hnext
    obtain ⟨after', hafter', hprograms'⟩ := RenamesAll.enrollAll hrest hprograms hafter
    exact ⟨after', enrollAll_cons.mpr ⟨next', hnext', hafter'⟩, hprograms'⟩

end

end Statement

end LoopLanguage
