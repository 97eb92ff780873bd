import ProcedureChart.Text.Character

/-!
# Nesting

Which characters of a text stand outside all parentheses and quotes. `split` cuts a text at the
doubled marks that stand outside, `cut?` at the first occurrence of an operator there, and
`stripParens` takes off parentheses around the whole text.

Quotes do not nest and know no escapes. Parentheses need not match: after one that closes too much,
nothing is outside until one opens again. Taking parentheses off looks at parentheses alone.
-/

namespace ProcedureChart.Constraint

/-- How far inside parentheses and quotes a place in a text is. -/
structure Nesting where
  depth : Int := 0
  /-- the quote that is open -/
  quote : Option Char := none
  deriving Repr, DecidableEq

namespace Nesting

/-- Whether a character is a quote. -/
def isQuote (c : Char) : Bool := c == '\'' || c == '"'

/-- The nesting behind a character. -/
def step (s : Nesting) (c : Char) : Nesting :=
  match s.quote with
  | some q => if c = q then { s with quote := none } else s
  | none =>
    if isQuote c then { s with quote := some c }
    else if c = '(' then { s with depth := s.depth + 1 }
    else if c = ')' then { s with depth := s.depth - 1 }
    else s

/-- Whether a character at a place stands outside. A parenthesis belongs to its inside, except that
one which opens may lead back to the outside. -/
def outside (s : Nesting) (c : Char) : Bool :=
  s.quote.isNone && !isQuote c && (s.step c).depth == 0 && c != ')'

end Nesting

/-! ### Splitting -/

/-- Puts a character in front of the first of some parts. -/
def glue (c : Char) : List (List Char) → List (List Char)
  | [] => [[c]]
  | part :: parts => (c :: part) :: parts

/-- The parts of a text between the doubled marks that stand outside. -/
def splitFrom (mark : Char) (s : Nesting) : List Char → List (List Char)
  | [] => [[]]
  | [c] => [[c]]
  | c :: c' :: cs =>
    if s.outside c ∧ c = mark ∧ c' = mark then [] :: splitFrom mark s cs
    else glue c (splitFrom mark (s.step c) (c' :: cs))

/-- The parts of a text between the doubled marks that stand outside, without blanks around them. -/
def split (mark : Char) (cs : List Char) : List (List Char) :=
  (splitFrom mark {} cs).map Text.trim

/-- The text before and the text behind the first occurrence of an operator that stands outside. -/
def cutFrom? (operator : List Char) (s : Nesting) : List Char → Option (List Char × List Char)
  | [] => none
  | c :: cs =>
    if s.outside c ∧ operator.isPrefixOf (c :: cs) then
      some ([], (c :: cs).drop operator.length)
    else (cutFrom? operator (s.step c) cs).map fun (before, behind) => (c :: before, behind)

/-- The text before and the text behind the first occurrence of an operator that stands outside. -/
def cut? (operator : List Char) (cs : List Char) : Option (List Char × List Char) :=
  cutFrom? operator {} cs

/-! ### Outer parentheses -/

/-- Whether the parenthesis that closes the outermost of `depth` open ones is the last character. -/
def closesAtEnd (depth : Nat) : List Char → Bool
  | [] => false
  | c :: cs =>
    if c = '(' then closesAtEnd (depth + 1) cs
    else if c = ')' then if depth ≤ 1 then cs.isEmpty else closesAtEnd (depth - 1) cs
    else closesAtEnd depth cs

theorem length_trim_le (cs : List Char) : (Text.trim cs).length ≤ cs.length := by
  have h₁ := (List.dropWhile_sublist Text.isBlank (l := cs)).length_le
  have h₂ := (List.dropWhile_sublist Text.isBlank (l := (Text.trimFront cs).reverse)).length_le
  simp only [Text.trim, Text.trimBack, Text.trimFront, List.length_reverse] at *
  omega

/-- A text without the parentheses around all of it, and without the blanks inside them. -/
def stripParens (cs : List Char) : List Char :=
  match cs with
  | '(' :: rest => if closesAtEnd 1 rest then stripParens (Text.trim rest.dropLast) else cs
  | _ => cs
termination_by cs.length
decreasing_by
  have := length_trim_le rest.dropLast
  simp only [List.length_cons, List.length_dropLast] at *
  omega

theorem length_stripParens_le (cs : List Char) : (stripParens cs).length ≤ cs.length := by
  fun_induction stripParens cs with
  | case1 rest _ ih =>
    have := length_trim_le rest.dropLast
    simp only [List.length_cons, List.length_dropLast] at *
    omega
  | case2 => exact Nat.le_refl _
  | case3 => exact Nat.le_refl _

/-! ### Splitting makes texts shorter -/

private theorem length_le_of_mem_glue {c : Char} {parts : List (List Char)} {n : Nat}
    (h : ∀ part ∈ parts, part.length ≤ n) :
    ∀ part ∈ glue c parts, part.length ≤ n + 1 := by
  cases parts with
  | nil => simp [glue]
  | cons head rest =>
    intro part hpart
    rcases List.mem_cons.1 hpart with rfl | hpart
    · simpa using h head List.mem_cons_self
    · exact Nat.le_succ_of_le (h part (List.mem_cons_of_mem _ hpart))

private theorem length_glue (c : Char) {parts : List (List Char)} (h : parts ≠ []) :
    (glue c parts).length = parts.length := by
  cases parts with
  | nil => exact absurd rfl h
  | cons => rfl

theorem splitFrom_ne_nil (mark : Char) (s : Nesting) (cs : List Char) :
    splitFrom mark s cs ≠ [] := by
  fun_cases splitFrom mark s cs with
  | case1 => simp
  | case2 => simp
  | case3 => simp
  | case4 c c' cs _ => cases splitFrom mark (s.step c) (c' :: cs) <;> simp [glue]

/-- A part is no longer than the text, and shorter if there are several. -/
theorem length_of_mem_splitFrom (mark : Char) (s : Nesting) (cs : List Char) :
    ∀ part ∈ splitFrom mark s cs,
      part.length + (if 1 < (splitFrom mark s cs).length then 1 else 0) ≤ cs.length := by
  fun_induction splitFrom mark s cs with
  | case1 => simp
  | case2 => simp
  | case3 s c c' cs _ ih =>
    intro part hpart
    have hpos := List.length_pos_iff.2 (splitFrom_ne_nil mark s cs)
    rcases List.mem_cons.1 hpart with rfl | hpart
    · simp only [List.length_nil, List.length_cons]
      split <;> omega
    · have := ih part hpart
      simp only [List.length_cons]
      split <;> omega
  | case4 s c c' cs _ ih =>
    have hne := splitFrom_ne_nil mark (s.step c) (c' :: cs)
    rw [length_glue c hne]
    intro part hpart
    have hle : ∀ p ∈ splitFrom mark (s.step c) (c' :: cs),
        p.length ≤ (c' :: cs).length
          - (if 1 < (splitFrom mark (s.step c) (c' :: cs)).length then 1 else 0) := by
      intro p hp
      have := ih p hp
      omega
    have := length_le_of_mem_glue hle part hpart
    have hone := ih _ (List.head_mem hne)
    simp only [List.length_cons] at *
    omega

/-- Where a text is split into several parts, each of them is shorter than the text. -/
theorem length_lt_of_mem_split {mark : Char} {cs part : List Char} (h : part ∈ split mark cs)
    (hseveral : 1 < (split mark cs).length) : part.length < cs.length := by
  obtain ⟨whole, hwhole, rfl⟩ := List.mem_map.1 h
  have hle := length_trim_le whole
  have := length_of_mem_splitFrom mark {} cs whole hwhole
  rw [split, List.length_map] at hseveral
  rw [if_pos hseveral] at this
  omega

end ProcedureChart.Constraint
