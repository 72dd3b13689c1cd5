import LoopLanguage.Proofs.Faults
import LoopLanguage.Proofs.WellFormed

/-!
Lines of output and their parts. A line is rendered item by item, and all that is handed on from one
item to the next is whether it was a string. So a line can be cut between any two items: it is what
comes before the cut and what comes after it, with a space between them where neither of the items
at the cut is a string.
-/

namespace LoopLanguage

namespace Output

/-- Whether the items end with a string; if there are none, what came before them decides. -/
def endsString : Bool → List Token → Bool
  | afterString, [] => afterString
  | _, t :: items => endsString (t.kind = .string) items

theorem endsString_eq_last (afterString : Bool) {items : List Token} (h : items ≠ []) :
    endsString afterString items = decide ((items.getLast h).kind = .string) := by
  induction items generalizing afterString with
  | nil => exact absurd rfl h
  | cons t items ih =>
    cases items with
    | nil => rfl
    | cons u items => exact ih (t.kind = .string) (List.cons_ne_nil u items)

/-- The flag is all that later items know of earlier ones. -/
theorem parts_append (store : Store) (afterString : Bool) (xs ys : List Token) :
    parts store afterString (xs ++ ys) = do
      let front ← parts store afterString xs
      let back ← parts store (endsString afterString xs) ys
      return front ++ back := by
  induction xs generalizing afterString with
  | nil => cases hys : parts store afterString ys <;> simp [parts, endsString, hys] <;> rfl
  | cons t xs ih =>
    rw [List.cons_append, parts, parts, endsString]
    by_cases ht : t.kind = .string
    · simp only [ht, ↓reduceIte, decide_true, ih]
      cases parts store true xs <;> cases parts store (endsString true xs) ys <;> rfl
    · simp only [ht, ↓reduceIte, decide_false, ih]
      cases itemText store t <;> cases parts store false xs <;>
        cases parts store (endsString false xs) ys <;> cases afterString <;> rfl

theorem join_append (front back : List Atom) :
    join (front ++ back) = do
      let before ← join front
      let after ← join back
      return before ++ after := by
  induction front with
  | nil => cases hback : join back <;> simp [join, hback] <;> rfl
  | cons piece front ih =>
    cases piece with
    | text s =>
      rw [List.cons_append, join, join, ih]
      cases join front with
      | error e => rfl
      | ok before =>
        cases join back with
        | error e => rfl
        | ok after => exact congrArg Except.ok String.append_assoc.symm
    | absent | other => rfl

/-- The line for the items, where `afterString` says what came before them. -/
def renderAfter (store : Store) (afterString : Bool) (items : List Token) : Except Error String := do
  join (← parts store afterString items)

theorem renderAfter_append {store : Store} {afterString : Bool} {xs ys : List Token}
    {line : String} :
    renderAfter store afterString (xs ++ ys) = .ok line ↔
      ∃ front back, renderAfter store afterString xs = .ok front ∧
        renderAfter store (endsString afterString xs) ys = .ok back ∧ line = front ++ back := by
  simp only [renderAfter, parts_append, result_bind_eq_ok]
  constructor
  · rintro ⟨pieces, ⟨front, hfront, back, hback, hpieces⟩, hline⟩
    cases hpieces
    rw [join_append] at hline
    obtain ⟨before, hbefore, hline⟩ := result_bind_eq_ok.mp hline
    obtain ⟨after, hafter, hline⟩ := result_bind_eq_ok.mp hline
    cases hline
    exact ⟨before, after, ⟨front, hfront, hbefore⟩, ⟨back, hback, hafter⟩, rfl⟩
  · rintro ⟨before, after, ⟨front, hfront, hbefore⟩, ⟨back, hback, hafter⟩, rfl⟩
    refine ⟨front ++ back, ⟨front, hfront, back, hback, rfl⟩, ?_⟩
    rw [join_append, hbefore, hafter]
    rfl

theorem renderAfter_true (store : Store) (items : List Token) :
    renderAfter store true items = render store items := rfl

/-- After an item that is no string a space comes first, unless a string follows. -/
theorem renderAfter_cons (store : Store) (afterString : Bool) (t : Token) (items : List Token) :
    renderAfter store afterString (t :: items) = do
      let line ← render store (t :: items)
      return (if afterString = false ∧ t.kind ≠ .string then " " else "") ++ line := by
  cases afterString with
  | true => simp [renderAfter_true]
  | false =>
    rw [renderAfter, render, parts, parts]
    by_cases ht : t.kind = .string
    · simp [ht]
    · simp only [ht, ↓reduceIte, ne_eq, not_false_eq_true, and_self]
      cases itemText store t with
      | error e => rfl
      | ok text =>
        cases parts store false items with
        | error e => rfl
        | ok rest => rfl

/-- A line can be cut between any two items. -/
theorem render_append {store : Store} {xs ys : List Token} (hxs : xs ≠ []) (hys : ys ≠ [])
    {line : String} :
    render store (xs ++ ys) = .ok line ↔
      ∃ front back, render store xs = .ok front ∧ render store ys = .ok back ∧
        line = front ++
          (if (xs.getLast hxs).kind ≠ .string ∧ (ys.head hys).kind ≠ .string then " " else "") ++
            back := by
  obtain ⟨y, ys, rfl⟩ := List.exists_cons_of_ne_nil hys
  rw [← renderAfter_true, renderAfter_append, renderAfter_true, renderAfter_cons]
  simp only [endsString_eq_last true hxs, decide_eq_false_iff_not, ← ne_eq, List.head_cons]
  constructor
  · rintro ⟨front, gapped, hfront, hgapped, rfl⟩
    obtain ⟨back, hback, hgap⟩ := result_bind_eq_ok.mp hgapped
    cases hgap
    exact ⟨front, back, hfront, hback, String.append_assoc.symm⟩
  · rintro ⟨front, back, hfront, hback, rfl⟩
    refine ⟨front, _, hfront, result_bind_eq_ok.mpr ⟨back, hback, rfl⟩, String.append_assoc⟩

/-- A variable without a value does not keep a line from being rendered. -/
theorem render_undefined {store : Store} {t : Token} (hkind : t.kind = .identifier)
    (hname : t.text.IsIdentifier) (hnone : store.get? t.text = none) :
    render store [t] = .ok placeholder := by
  have hitem : itemText store t = .ok placeholder := by
    simp only [itemText, hkind, hname.checkKey, hname.shown, hnone]
    rfl
  simp only [render, parts, hkind, hitem]
  rfl

end Output

open Statement (nodesAll)

/-- Lines of output can be put together. Items with other items after them render exactly if both do,
and the line is that of the first ones, a space if neither of the two items that meet is a string,
and that of the others. What a parsed program puts out, at any depth, always renders where all values
can be written; a variable that has no value is shown as such. -/
theorem rendering_composes (store : Store) :
    (∀ (xs ys : List Token) (hxs : xs ≠ []) (hys : ys ≠ []) (line : String),
      Output.render store (xs ++ ys) = .ok line ↔
        ∃ front back, Output.render store xs = .ok front ∧ Output.render store ys = .ok back ∧
          line = front ++
            (if (xs.getLast hxs).kind ≠ .string ∧ (ys.head hys).kind ≠ .string then " " else "") ++
              back) ∧
    ∀ before body registry items, ParsedAfter before body registry →
      .output items ∈ nodesAll body →
      (∀ name value, store.get? name = some value → value.natAbs < Text.digitLimit) →
        (∃ line, Output.render store items = .ok line) ∧
          ∀ t ∈ items, t.kind = .identifier → store.get? t.text = none →
            Output.render store [t] = .ok "undefined" := by
  refine ⟨fun xs ys hxs hys line => Output.render_append hxs hys, ?_⟩
  intro before body registry items hparsed houtput hshort
  have hregular := hparsed.regular.nodesAll _ houtput
  refine ⟨Output.render_eq_ok hregular hshort, ?_⟩
  intro t ht hkind hnone
  have hname := (hregular.2 t ht).2.1.identifier hkind
  exact Output.render_undefined hkind hname hnone

/-- The cut is between two items that are no strings, and the last variable has no value. -/
theorem rendering_composes_undefined :
    Output.render [(.text "x", 5)]
        ([⟨.string, .text "a", ⟨1, 8⟩, false⟩, ⟨.identifier, .text "x", ⟨1, 13⟩, false⟩] ++
          [⟨.number, .text "007", ⟨1, 16⟩, false⟩, ⟨.identifier, .text "y", ⟨1, 21⟩, false⟩]) =
      .ok "a5 7 undefined" ∧
    ∃ items, parseByDescent "OUTPUT \"a\", x, 007, y" [] = (.ok [.output items], []) ∧
      (∃ line, Output.render [(.text "x", 5)] items = .ok line) ∧
      Output.render [(.text "x", 5)] [⟨.identifier, .text "y", ⟨1, 21⟩, false⟩] =
        .ok "undefined" := by
  obtain ⟨hcut, hrenders⟩ := rendering_composes [(.text "x", 5)]
  have hparse : parseByDescent "OUTPUT \"a\", x, 007, y" [] =
      (.ok [.output [⟨.string, .text "a", ⟨1, 8⟩, false⟩, ⟨.identifier, .text "x", ⟨1, 13⟩, false⟩,
        ⟨.number, .text "007", ⟨1, 16⟩, false⟩, ⟨.identifier, .text "y", ⟨1, 21⟩, false⟩]], []) := by
    cbv
  have hshort : ∀ name value, Store.get? [(.text "x", 5)] name = some value →
      value.natAbs < Text.digitLimit := by
    intro name value hvalue
    rw [Store.get?_cons] at hvalue
    split at hvalue
    · cases hvalue
      exact Text.lt_digitLimit (k := 1) (by decide) (by decide)
    · cases hvalue
  obtain ⟨hline, hundefined⟩ :=
    hrenders [] _ [] _ ⟨_, .inl hparse⟩ List.mem_cons_self hshort
  refine ⟨?_, _, hparse, hline, hundefined _ (by simp) rfl rfl⟩
  exact (hcut _ _ (by simp) (by simp) _).mpr
    ⟨"a5", "7 undefined", by decide +kernel, by decide +kernel, by decide⟩

end LoopLanguage
