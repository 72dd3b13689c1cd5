import LoopLanguage.Json.Reader
import LoopLanguage.Proofs.Faults

/-!
Names that messages can show. A source only has texts for names. A document may have numbers for
names, too, but a document that was read from a text has no number of more digits than may be read,
and as many may be written: `Json.read_isWritable` says so of reading, `Document.load_legible` of
what is loaded from such a document.
-/

namespace LoopLanguage

namespace Statement

mutual

/-- Messages can show the programs that the statement calls and the parameters of the programs that
it defines. -/
def Legible : Statement → Prop
  | call _ callee _ => callee.isWritable
  | loop _ body => LegibleAll body
  | define _ params body => (∀ param ∈ params, param.isWritable) ∧ LegibleAll body
  | program body => LegibleAll body
  | _ => True

def LegibleAll : List Statement → Prop
  | [] => True
  | s :: rest => Legible s ∧ LegibleAll rest

end

end Statement

theorem Statement.legibleAll_iff {body : List Statement} :
    LegibleAll body ↔ ∀ s ∈ body, s.Legible := by
  induction body with
  | nil => simp [LegibleAll]
  | cons first rest ih => rw [LegibleAll, ih, List.forall_mem_cons]

def Definition.Legible (d : Definition) : Prop :=
  (∀ param ∈ d.params, param.isWritable) ∧ Statement.LegibleAll d.body

def Registry.Legible (registry : Registry) : Prop := ∀ d ∈ registry, d.Legible

theorem Registry.legible_nil : Registry.Legible [] := nofun

theorem Registry.Legible.snoc {registry : Registry} (h : registry.Legible) {d : Definition}
    (hd : d.Legible) : Registry.Legible (registry ++ [d]) := by
  intro found hfound
  rcases List.mem_append.mp hfound with hfound | hfound
  · exact h found hfound
  · rwa [List.mem_singleton.mp hfound]

namespace Statement

mutual

theorem enroll_legible : ∀ (s : Statement) {registry after : Registry}, s.Legible →
    registry.Legible → enroll s registry = some after → after.Legible
  | .call .., _, _, _, hregistry, h => by
    obtain ⟨_, _, _, rfl⟩ := enroll_call.mp h
    exact hregistry
  | .loop _ body, _, _, hs, hregistry, h => enrollAll_legible body hs hregistry h
  | .program body, _, _, hs, hregistry, h => enrollAll_legible body hs hregistry h
  | .define name params body, _, _, hs, hregistry, h => by
    obtain ⟨inner, hbody, _, rfl⟩ := enroll_define.mp h
    exact (enrollAll_legible body hs.2 hregistry hbody).snoc hs
  | .assign .., _, _, _, hregistry, h | .increment .., _, _, _, hregistry, h
  | .input _, _, _, _, hregistry, h | .output _, _, _, _, hregistry, h
  | .missing, _, _, _, hregistry, h | .token _, _, _, _, hregistry, h => by
    cases h
    exact hregistry

theorem enrollAll_legible : ∀ (body : List Statement) {registry after : Registry},
    LegibleAll body → registry.Legible → enrollAll body registry = some after → after.Legible
  | [], _, _, _, hregistry, h => by
    cases h
    exact hregistry
  | s :: rest, _, _, hbody, hregistry, h => by
    obtain ⟨next, hs, hrest⟩ := enrollAll_cons.mp h
    exact enrollAll_legible rest hbody.2 (enroll_legible s hbody.1 hregistry hs) hrest

end

mutual

theorem Regular.legible : ∀ s : Statement, s.Regular → s.Legible
  | .call .., h => h.2.1.isWritable
  | .loop _ body, h => RegularAll.legible body h.2
  | .define _ _ body, h => ⟨fun param hparam => (h.2.1 param hparam).isWritable,
      RegularAll.legible body h.2.2.2⟩
  | .assign .., _ | .increment .., _ | .input _, _ | .output _, _ => trivial
  | .missing, h | .token _, h | .program _, h => h.elim

theorem RegularAll.legible : ∀ body : List Statement, RegularAll body → LegibleAll body
  | [], _ => trivial
  | s :: rest, h => ⟨Regular.legible s h.1, RegularAll.legible rest h.2⟩

end

end Statement

/-! ## Reading -/

namespace Json

theorem areWritable_iff {items : List Json} :
    areWritable items = true ↔ ∀ item ∈ items, item.isWritable = true := by
  induction items with
  | nil => simp [areWritable]
  | cons item items ih => simp [areWritable, ih]

theorem haveWritable_iff {fields : List (String × Json)} :
    haveWritable fields = true ↔ ∀ field ∈ fields, field.2.isWritable = true := by
  induction fields with
  | nil => simp [haveWritable]
  | cons field fields ih =>
    obtain ⟨key, value⟩ := field
    simp [haveWritable, ih]

theorem haveWritable_setField {fields : List (String × Json)} (h : haveWritable fields = true)
    {value : Json} (hvalue : value.isWritable = true) (key : String) :
    haveWritable (setField key value fields) = true := by
  induction fields with
  | nil => simp [setField, haveWritable, hvalue]
  | cons field fields ih =>
    obtain ⟨k, v⟩ := field
    obtain ⟨hv, hfields⟩ : v.isWritable = true ∧ haveWritable fields = true := by
      simpa [haveWritable] using h
    rw [setField]
    split
    · simp [haveWritable, hvalue, hfields]
    · simp [haveWritable, hv, ih hfields]

theorem isWritable_of_word {cs word : List Char} {meaning : Json}
    (h : words.find? (fun entry => entry.1.isPrefixOf cs) = some (word, meaning)) :
    meaning.isWritable = true := by
  have hall : ∀ entry ∈ words, entry.2.isWritable = true := by
    simp [words, isWritable]
  exact hall _ (List.mem_of_find?_eq_some h)

theorem isWritable_of_number {cursor next : Cursor} {v : Json}
    (h : number (some Text.maxDigits) cursor = .ok (v, next)) : v.isWritable = true := by
  unfold number at h
  extract_lets sign unsigned whole negative rest fraction afterFraction exponent after n at h
  split at h
  · cases h
  · split at h
    · split at h
      · cases h
      · next hlength =>
        have hshort := Text.lt_digitLimit (Text.ofDigits_lt whole) (by simpa using hlength)
        obtain ⟨rfl, _⟩ := Prod.mk.inj (Except.ok.inj h)
        rw [isWritable, decide_eq_true_eq]
        split
        · rwa [Int.natAbs_neg, Int.natAbs_natCast]
        · rwa [Int.natAbs_natCast]
    · obtain ⟨rfl, _⟩ := Prod.mk.inj (Except.ok.inj h)
      rfl

theorem read_step {α β : Type} {r : Except Fault α} {f : α → Except Fault β} {b : β} :
    (r >>= f) = .ok b ↔ ∃ a, r = .ok a ∧ f a = .ok b := by
  cases r <;> simp [bind, Except.bind]

mutual

theorem value_isWritable : ∀ (fuel : Nat) {cursor next : Cursor} {v : Json},
    value (some Text.maxDigits) fuel cursor = .ok (v, next) → v.isWritable = true
  | 0, _, _, _, h => by cases h
  | fuel + 1, cursor, next, v, h => by
    rw [value] at h
    split at h
    · obtain ⟨s, _, h⟩ := read_step.mp h
      cases h
      rfl
    · dsimp only at h
      split at h
      · cases h
        rfl
      · exact members_isWritable fuel rfl h
    · dsimp only at h
      split at h
      · cases h
        rfl
      · exact elements_isWritable fuel rfl h
    · split at h
      · next hfind =>
        cases h
        exact isWritable_of_word hfind
      · exact isWritable_of_number h

theorem members_isWritable : ∀ (fuel : Nat) {fields : List (String × Json)} {cursor next : Cursor}
    {v : Json}, haveWritable fields = true →
      members (some Text.maxDigits) fuel fields cursor = .ok (v, next) → v.isWritable = true
  | 0, _, _, _, _, _, h => by cases h
  | fuel + 1, fields, cursor, next, v, hfields, h => by
    rw [members] at h
    split at h
    · obtain ⟨⟨key, afterKey⟩, _, h⟩ := read_step.mp h
      dsimp only at h
      split at h
      · obtain ⟨⟨first, afterFirst⟩, hfirst, h⟩ := read_step.mp h
        have hall := haveWritable_setField hfields (value_isWritable fuel hfirst) key
        dsimp only at h
        split at h
        · cases h
          exact hall
        · exact members_isWritable fuel hall h
        · cases h
      · cases h
    · cases h

theorem elements_isWritable : ∀ (fuel : Nat) {items : List Json} {cursor next : Cursor} {v : Json},
    areWritable items = true →
      elements (some Text.maxDigits) fuel items cursor = .ok (v, next) → v.isWritable = true
  | 0, _, _, _, _, _, h => by cases h
  | fuel + 1, items, cursor, next, v, hitems, h => by
    rw [elements] at h
    obtain ⟨⟨first, afterFirst⟩, hfirst, h⟩ := read_step.mp h
    have hall : areWritable (first :: items) = true := by
      simp [areWritable, value_isWritable fuel hfirst, hitems]
    dsimp only at h
    split at h
    · cases h
      rw [isWritable, areWritable_iff]
      intro item hitem
      exact areWritable_iff.mp hall item (List.mem_reverse.mp hitem)
    · exact elements_isWritable fuel hall h
    · cases h

end

/-- What is read can be written: a number of a document has no more digits than may be read, and as
many may be written. -/
theorem read_isWritable {text : String} {document : Json}
    (h : read (some Text.maxDigits) text = .ok document) : document.isWritable = true := by
  unfold read at h
  dsimp only at h
  split at h
  · cases h
  · obtain ⟨⟨v, next⟩, hvalue, h⟩ := read_step.mp h
    dsimp only at h
    split at h
    · cases h
      exact value_isWritable _ hvalue
    · cases h

end Json

/-! ## Loading -/

theorem Atom.isWritable_ofJson (value : Json) : (ofJson value).isWritable = value.isWritable := by
  cases value <;> simp [ofJson, Atom.isWritable, toJson, Json.isWritable]

namespace Document

open Statement

theorem field_isWritable {fields : List (String × Json)} (hfields : Json.haveWritable fields = true)
    {key : String} {value : Json} (h : field fields key = .ok value) :
    value.isWritable = true := by
  unfold field at h
  split at h
  · next hfind =>
    cases h
    obtain ⟨before, after, rfl, _⟩ := List.lookup_eq_some_iff.mp hfind
    exact Json.haveWritable_iff.mp hfields (key, value) (by simp)
  · cases h

theorem items_isWritable {value : Json} (hvalue : value.isWritable = true) {values : List Json}
    (h : items value = .ok values) : ∀ item ∈ values, item.isWritable = true := by
  unfold items at h
  split at h
  · cases h
    exact Json.areWritable_iff.mp hvalue
  · cases h
    simp [Json.isWritable]
  · cases h
    intro item hitem
    obtain ⟨_, _, rfl⟩ := List.mem_map.mp hitem
    rfl
  · cases h

theorem names_isWritable {value : Json} (hvalue : value.isWritable = true) {atoms : List Atom}
    (h : names value = .ok atoms) : ∀ atom ∈ atoms, atom.isWritable = true := by
  obtain ⟨values, hvalues, h⟩ := result_bind_eq_ok.mp h
  cases h
  intro atom hatom
  obtain ⟨item, hitem, rfl⟩ := List.mem_map.mp hatom
  rw [Atom.isWritable_ofJson]
  exact items_isWritable hvalue hvalues item hitem

mutual

/-- Messages can show what is loaded from a document whose numbers can be written. -/
theorem load_legible : ∀ (document : Json) {registry after : Registry} {s : Statement},
    document.isWritable = true → load document registry = (.ok s, after) → s.Legible
  | .null => by
    intro _ h
    cases h
    trivial
  | .obj fields => by
    intro hfields h
    cases load_obj_eq_ok h with
    | token | assign | increment | input | output => trivial
    | call _ hprogram =>
      rw [Legible, Atom.isWritable_ofJson]
      exact field_isWritable hfields hprogram
    | loop _ hbody => exact loadBody_legible fields hfields hbody
    | define _ hbody hvalue hparams =>
      constructor
      · exact names_isWritable (field_isWritable hfields hvalue) hparams
      · exact loadBody_legible fields hfields hbody
    | program hbody => exact loadBody_legible fields hfields hbody
  | .bool _ | .int _ | .real _ | .str _ | .arr _ => by
    intro _ h
    cases h

theorem loadBody_legible : ∀ (fields : List (String × Json)) {registry after : Registry}
    {body : List Statement}, Json.haveWritable fields = true →
      loadBody fields registry = (.ok body, after) → LegibleAll body
  | [], _, _, _, _, h => by cases h
  | (key, value) :: fields, _, _, _, hfields, h => by
    obtain ⟨hvalue, hrest⟩ : value.isWritable = true ∧ Json.haveWritable fields = true := by
      simpa [Json.haveWritable] using hfields
    unfold loadBody at h
    split at h
    · exact loadItems_legible value hvalue h
    · exact loadBody_legible fields hrest h

theorem loadItems_legible : ∀ (value : Json) {registry after : Registry} {body : List Statement},
    value.isWritable = true → loadItems value registry = (.ok body, after) → LegibleAll body
  | .arr values => loadAll_legible values
  | .str s => by
    intro _ h
    unfold loadItems at h
    split at h <;> cases h
    trivial
  | .obj fields => by
    intro _ h
    unfold loadItems at h
    split at h <;> cases h
    trivial
  | .null | .bool _ | .int _ | .real _ => by
    intro _ h
    cases h

theorem loadAll_legible : ∀ (values : List Json) {registry after : Registry}
    {body : List Statement}, Json.areWritable values = true →
      loadAll values registry = (.ok body, after) → LegibleAll body
  | [], _, _, _, _, h => by
    cases h
    trivial
  | value :: values, _, _, _, hvalues, h => by
    obtain ⟨hvalue, hrest⟩ : value.isWritable = true ∧ Json.areWritable values = true := by
      simpa [Json.areWritable] using hvalues
    obtain ⟨first, next, hfirst, h⟩ := Action.bind_eq_ok_iff.mp h
    obtain ⟨rest, last, hall, h⟩ := Action.bind_eq_ok_iff.mp h
    cases h
    exact ⟨load_legible value hvalue hfirst, loadAll_legible values hrest hall⟩

end

end Document

end LoopLanguage
