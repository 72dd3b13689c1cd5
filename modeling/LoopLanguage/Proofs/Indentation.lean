import LoopLanguage.Text.Line
import LoopLanguage.Token.Literal

/-!
What indenting does to a text, and to the string literals in it. A literal that holds a character
which ends lines in some script is taken for several lines, and each of them that is not blank
gets its spaces: they end up in the text of the literal. The two characters that usually end lines
are escaped in literals and do no harm.
-/

namespace LoopLanguage

namespace Text

/-- The spaces before a line at a depth. -/
def pad (depth : Nat) : List Char := List.replicate (2 * depth) ' '

/-- There is only white space up to the first line end, or up to the end. -/
def opensBlank : List Char → Bool
  | [] => true
  | c :: cs => isLineEnd c || isBlank c && opensBlank cs

/-- The spaces that the first line of a text gets. -/
def lead (depth : Nat) (cs : List Char) : List Char := if opensBlank cs then [] else pad depth

/-- Indent all lines of a text but the first one. -/
def carry (depth : Nat) : List Char → List Char
  | [] => []
  | c :: cs =>
    if isLineEnd c then c :: (lead depth cs ++ carry depth cs) else c :: carry depth cs

/-- Indent all lines of a text to a depth. -/
def shift (depth : Nat) (cs : List Char) : List Char := lead depth cs ++ carry depth cs

theorem isBlank_of_isLineEnd {c : Char} (h : isLineEnd c = true) : isBlank c = true := by
  simp only [isLineEnd, isBlank, Bool.or_eq_true, Bool.and_eq_true, decide_eq_true_eq,
    beq_iff_eq] at h ⊢
  omega

theorem lines_cons {c : Char} (hc : c ≠ '\r') (cs : List Char) :
    lines (c :: cs) = if isLineEnd c then [c] :: lines cs
      else match lines cs with
        | [] => [[c]]
        | line :: rest => (c :: line) :: rest := by
  rw [lines.eq_def]
  split
  · next h => cases h
  · next h =>
    cases h
    exact absurd rfl hc
  · next h =>
    cases h
    rfl

theorem opensBlank_eq {cs : List Char} (hcs : '\r' ∉ cs) :
    opensBlank cs = match lines cs with
      | [] => true
      | line :: _ => line.all isBlank := by
  induction cs with
  | nil => rfl
  | cons c cs ih =>
    have hc : c ≠ '\r' := fun h => hcs (by simp [h])
    have ih := ih fun h => hcs (by simp [h])
    rw [lines_cons hc, opensBlank]
    cases hend : isLineEnd c with
    | true => simp [isBlank_of_isLineEnd hend]
    | false =>
      rw [ih]
      cases lines cs <;> simp

/-- What the lines after the first one get decides what all lines get. -/
theorem flatMap_lines_of_carry {cs : List Char} (hcs : '\r' ∉ cs)
    (hcarry : carry 1 cs = match lines cs with
      | [] => []
      | line :: rest => line ++ rest.flatMap indentLine) :
    (lines cs).flatMap indentLine = shift 1 cs := by
  have hopens := opensBlank_eq hcs
  rw [shift, hcarry, lead, hopens]
  cases lines cs with
  | nil => rfl
  | cons line rest =>
    cases hblank : line.all isBlank <;> simp [indentLine, hblank, pad]

theorem carry_eq {cs : List Char} (hcs : '\r' ∉ cs) :
    carry 1 cs = match lines cs with
      | [] => []
      | line :: rest => line ++ rest.flatMap indentLine := by
  induction cs with
  | nil => rfl
  | cons c cs ih =>
    have hc : c ≠ '\r' := fun h => hcs (by simp [h])
    have hrest : '\r' ∉ cs := fun h => hcs (by simp [h])
    have ih := ih hrest
    rw [lines_cons hc, carry]
    cases hend : isLineEnd c with
    | true => simp [flatMap_lines_of_carry hrest ih, shift]
    | false =>
      rw [ih]
      cases lines cs <;> simp

theorem toList_indent {s : String} (hs : '\r' ∉ s.toList) :
    (indent s).toList = shift 1 s.toList := by
  rw [indent, String.toList_ofList]
  exact flatMap_lines_of_carry hs (carry_eq hs)

@[simp] theorem pad_zero : pad 0 = [] := rfl

theorem pad_add (m n : Nat) : pad (m + n) = pad m ++ pad n := by
  simp [pad, Nat.mul_add]

theorem opensBlank_pad (depth : Nat) (cs : List Char) :
    opensBlank (pad depth ++ cs) = opensBlank cs := by
  have hspaces : ∀ n, opensBlank (List.replicate n ' ' ++ cs) = opensBlank cs := by
    intro n
    induction n with
    | zero => rfl
    | succ n ih =>
      rw [List.replicate_succ, List.cons_append, opensBlank, ih]
      simp [show isLineEnd ' ' = false by decide, show isBlank ' ' = true by decide]
  exact hspaces (2 * depth)

theorem carry_plain (depth : Nat) {a : List Char} (ha : ∀ c ∈ a, isLineEnd c = false)
    (b : List Char) : carry depth (a ++ b) = a ++ carry depth b := by
  induction a with
  | nil => rfl
  | cons c a ih =>
    rw [List.cons_append, carry, ha c (by simp), ih fun d hd => ha d (by simp [hd])]
    rfl

theorem isLineEnd_of_mem_pad {depth : Nat} {c : Char} (h : c ∈ pad depth) :
    isLineEnd c = false := by
  obtain rfl : c = ' ' := List.eq_of_mem_replicate h
  decide

theorem lead_append_lead (m n : Nat) (cs : List Char) :
    lead m cs ++ lead n cs = lead (m + n) cs := by
  unfold lead
  cases opensBlank cs <;> simp [pad_add]

theorem opensBlank_lead (depth : Nat) (cs rest : List Char) :
    opensBlank (lead depth cs ++ rest) = opensBlank rest := by
  unfold lead
  split
  · rfl
  · exact opensBlank_pad depth rest

theorem carry_lead (m n : Nat) (cs rest : List Char) :
    carry m (lead n cs ++ rest) = lead n cs ++ carry m rest := by
  refine carry_plain m ?_ rest
  intro c hc
  unfold lead at hc
  split at hc
  · cases hc
  · exact isLineEnd_of_mem_pad hc

theorem opensBlank_carry (depth : Nat) (cs : List Char) :
    opensBlank (carry depth cs) = opensBlank cs := by
  induction cs with
  | nil => rfl
  | cons c cs ih =>
    rw [carry]
    cases hend : isLineEnd c <;> simp [opensBlank, hend, ih]

theorem lead_shift (m n : Nat) (cs : List Char) : lead m (shift n cs) = lead m cs := by
  rw [lead, shift, opensBlank_lead, opensBlank_carry]
  rfl

theorem carry_carry (m n : Nat) (cs : List Char) : carry m (carry n cs) = carry (m + n) cs := by
  induction cs with
  | nil => rfl
  | cons c cs ih =>
    cases hend : isLineEnd c with
    | false => simp [carry, hend, ih]
    | true =>
      have hlead : lead m (lead n cs ++ carry n cs) = lead m cs := lead_shift m n cs
      simp only [carry, hend, if_true, hlead, carry_lead, ih]
      rw [← List.append_assoc, lead_append_lead]

/-- Indenting twice is indenting deeper. -/
theorem shift_shift (m n : Nat) (cs : List Char) : shift m (shift n cs) = shift (m + n) cs := by
  rw [shift, lead_shift, shift, carry_lead, carry_carry, ← List.append_assoc, lead_append_lead]
  rfl

theorem shift_zero (cs : List Char) : shift 0 cs = cs := by
  have hlead : ∀ ds : List Char, lead 0 ds = [] := by
    intro ds
    unfold lead
    split <;> rfl
  have hcarry : carry 0 cs = cs := by
    induction cs with
    | nil => rfl
    | cons c cs ih => cases hend : isLineEnd c <;> simp [carry, hend, hlead, ih]
  rw [shift, hlead, hcarry]
  rfl

theorem opensBlank_newline (a b : List Char) : opensBlank (a ++ '\n' :: b) = opensBlank a := by
  induction a with
  | nil => simp [opensBlank, show isLineEnd '\n' = true by decide]
  | cons c a ih => rw [List.cons_append, opensBlank, opensBlank, ih]

theorem carry_newline (depth : Nat) (a b : List Char) :
    carry depth (a ++ '\n' :: b) = carry depth a ++ '\n' :: shift depth b := by
  induction a with
  | nil => simp [carry, shift, show isLineEnd '\n' = true by decide]
  | cons c a ih =>
    have hlead : lead depth (a ++ '\n' :: b) = lead depth a := by
      rw [lead, opensBlank_newline]
      rfl
    cases hend : isLineEnd c <;> simp [carry, hend, hlead, ih]

/-- Lines are indented one by one. -/
theorem shift_newline (depth : Nat) (a b : List Char) :
    shift depth (a ++ '\n' :: b) = shift depth a ++ '\n' :: shift depth b := by
  rw [shift, lead, opensBlank_newline, carry_newline, ← List.append_assoc]
  rfl

end Text

namespace Literal

open LoopLanguage.Text

/-- The characters that end lines in some script and stand in literals as they are. -/
def lineBreaks : List Nat := [0x0b, 0x0c, 0x1c, 0x1d, 0x1e, 0x85, 0x2028, 0x2029]

theorem isLineEnd_iff {c : Char} :
    isLineEnd c = true ↔ c.toNat ∈ lineBreaks ∨ c = '\n' ∨ c = '\r' := by
  have hfeed : c = '\n' ↔ c.toNat = 0x0a := Char.toNat_inj.symm
  have hreturn : c = '\r' ↔ c.toNat = 0x0d := Char.toNat_inj.symm
  rw [hfeed, hreturn]
  simp only [isLineEnd, lineBreaks, Bool.or_eq_true, Bool.and_eq_true, decide_eq_true_eq,
    beq_iff_eq, List.mem_cons, List.not_mem_nil, or_false]
  omega

/-- The text that a literal has after it was indented. -/
def inflate (depth : Nat) : List Char → List Char
  | [] => []
  | c :: cs =>
    if c.toNat ∈ lineBreaks then c :: (lead depth (encode cs ++ ['"']) ++ inflate depth cs)
    else c :: inflate depth cs

theorem escape?_line {c d : Char} (h : escape? c = some d) :
    isLineEnd '\\' = false ∧ isLineEnd d = false ∧ c.toNat ∉ lineBreaks := by
  unfold escape? at h
  split at h <;> cases h <;> decide

theorem isLineEnd_of_not_escaped {c : Char} (h : escape? c = none) :
    isLineEnd c = true ↔ c.toNat ∈ lineBreaks := by
  rw [isLineEnd_iff]
  constructor
  · rintro (hbreak | rfl | rfl)
    · exact hbreak
    · simp [escape?] at h
    · simp [escape?] at h
  · exact .inl

theorem encode_spaces {spaces : List Char} (h : ∀ c ∈ spaces, c = ' ') (cs : List Char) :
    encode (spaces ++ cs) = spaces ++ encode cs := by
  induction spaces with
  | nil => rfl
  | cons c spaces ih =>
    obtain rfl := h c (by simp)
    simp [encode, escape?, ih fun d hd => h d (by simp [hd])]

theorem eq_space_of_mem_lead {depth : Nat} {cs : List Char} {c : Char}
    (h : c ∈ lead depth cs) : c = ' ' := by
  unfold lead at h
  split at h
  · cases h
  · exact List.eq_of_mem_replicate h

/-- The closing quote is no blank, so what comes after it does not matter for the line. -/
theorem opensBlank_encode (cs more : List Char) :
    opensBlank (encode cs ++ '"' :: more) = opensBlank (encode cs ++ ['"']) := by
  have hquote : ∀ ds : List Char, opensBlank ('"' :: ds) = false := by
    intro ds
    simp [opensBlank, show isLineEnd '"' = false by decide, show isBlank '"' = false by decide]
  generalize encode cs = raw
  induction raw with
  | nil => rw [List.nil_append, List.nil_append, hquote, hquote]
  | cons c raw ih => rw [List.cons_append, List.cons_append, opensBlank, opensBlank, ih]

/-- Indenting a text inflates a literal in it and goes on after the closing quote. -/
theorem carry_encode (depth : Nat) (cs more : List Char) :
    carry depth (encode cs ++ '"' :: more) =
      encode (inflate depth cs) ++ '"' :: carry depth more := by
  induction cs with
  | nil => simp [encode, inflate, carry, show isLineEnd '"' = false by decide]
  | cons c cs ih =>
    cases hescape : escape? c with
    | some d =>
      obtain ⟨hslash, hd, hbreak⟩ := escape?_line hescape
      simp [encode, hescape, inflate, hbreak, carry, hslash, hd, ih]
    | none =>
      by_cases hbreak : c.toNat ∈ lineBreaks
      · have hend := (isLineEnd_of_not_escaped hescape).mpr hbreak
        have hlead : lead depth (encode cs ++ '"' :: more) = lead depth (encode cs ++ ['"']) := by
          rw [lead, opensBlank_encode]
          rfl
        simp [encode, hescape, inflate, hbreak, carry, hend, ih, hlead,
          encode_spaces fun c => eq_space_of_mem_lead]
      · have hend : isLineEnd c = false := by
          simpa using fun h => hbreak ((isLineEnd_of_not_escaped hescape).mp h)
        simp [encode, hescape, inflate, hbreak, carry, hend, ih]

theorem opensBlank_of_unbroken {cs : List Char} (h : ∀ c ∈ cs, c.toNat ∉ lineBreaks) :
    opensBlank (encode cs ++ ['"']) = false := by
  induction cs with
  | nil => decide
  | cons c cs ih =>
    have ih := ih fun d hd => h d (by simp [hd])
    cases hescape : escape? c with
    | some d =>
      obtain ⟨hslash, hd, _⟩ := escape?_line hescape
      simp [encode, hescape, opensBlank, hslash, hd, ih]
    | none =>
      have hend : isLineEnd c = false := by
        simpa using fun hend => h c (by simp) ((isLineEnd_of_not_escaped hescape).mp hend)
      simp [encode, hescape, opensBlank, hend, ih]

theorem inflate_of_unbroken (depth : Nat) {cs : List Char} (h : ∀ c ∈ cs, c.toNat ∉ lineBreaks) :
    inflate depth cs = cs := by
  induction cs with
  | nil => rfl
  | cons c cs ih => rw [inflate, if_neg (h c (by simp)), ih fun d hd => h d (by simp [hd])]

theorem inflate_zero (cs : List Char) : inflate 0 cs = cs := by
  induction cs with
  | nil => rfl
  | cons c cs ih =>
    have hlead : lead 0 (encode cs ++ ['"']) = [] := by
      unfold lead
      split <;> rfl
    simp [inflate, hlead, ih]

/-- The line of the closing quote always gets its spaces. -/
theorem length_lt_inflate {depth : Nat} (hdepth : 0 < depth) {cs : List Char}
    (h : ∃ c ∈ cs, c.toNat ∈ lineBreaks) : cs.length < (inflate depth cs).length := by
  induction cs with
  | nil => simp at h
  | cons c cs ih =>
    rw [inflate]
    by_cases hrest : ∃ d ∈ cs, d.toNat ∈ lineBreaks
    · have ih := ih hrest
      split <;> simp <;> omega
    · have hunbroken : ∀ d ∈ cs, d.toNat ∉ lineBreaks := fun d hd hbreak => hrest ⟨d, hd, hbreak⟩
      have hbreak : c.toNat ∈ lineBreaks := by
        obtain ⟨d, hd, hbreak⟩ := h
        cases hd with
        | head => exact hbreak
        | tail _ hd => exact absurd hbreak (hunbroken d hd)
      have hlead : (lead depth (encode cs ++ ['"'])).length = 2 * depth := by
        simp [lead, opensBlank_of_unbroken hunbroken, pad]
      rw [if_pos hbreak, inflate_of_unbroken depth hunbroken]
      simp only [List.length_cons, List.length_append, hlead]
      omega

theorem inflate_eq_self {depth : Nat} (hdepth : 0 < depth) {cs : List Char} :
    inflate depth cs = cs ↔ ∀ c ∈ cs, c.toNat ∉ lineBreaks := by
  refine ⟨fun h c hc hbreak => ?_, inflate_of_unbroken depth⟩
  have hlength := length_lt_inflate hdepth ⟨c, hc, hbreak⟩
  rw [h] at hlength
  exact Nat.lt_irrefl _ hlength

end Literal

end LoopLanguage
