import ProcedureChart.Constraint.Basic
import ProcedureChart.Constraint.Nesting
import ProcedureChart.Numeric.Reading

/-!
# Reading constraints off expressions

`Constraint.parse` finds the simple conditions in the text of an expression. A text without `&&` and
`||` outside of parentheses and quotes is one condition, if it has the shape of one. The conditions
of a conjunction are those of its parts. The conditions of a disjunction are collected as well, but
they do not say when the expression holds, so the result is then not complete.

The operator of a comparison is the first one in the order of `CompareOp.all` that occurs at all,
and it is cut at its first occurrence.
-/

namespace ProcedureChart.Constraint

/-- The conditions found in a text. -/
structure Parsed where
  constraints : List Constraint := []
  /-- whether the text holds exactly if all conditions do -/
  complete : Bool := false
  deriving Repr, DecidableEq

/-! ### Literals -/

/-- The inside of a text that is one quoted text without its quote inside. -/
def quoted? : List Char → Option String
  | [] => none
  | quote :: rest =>
    match rest.getLast? with
    | none => none
    | some last =>
      if Nesting.isQuote quote ∧ last = quote ∧ !rest.dropLast.contains quote then
        some (String.ofList rest.dropLast)
      else none

/-- The value of a literal: a truth value, a numeral or a quoted text. -/
def literalOf? (cs : List Char) : Option Value :=
  match String.ofList cs with
  | "true" => some (.bool true)
  | "false" => some (.bool false)
  | _ =>
    match Numeric.readNumeral cs with
    | some x => some (.number x)
    | none => (quoted? cs).map .text

/-! ### Single conditions -/

/-- The condition of a text that is a truth value. -/
def truthOf? (cs : List Char) : Option Constraint :=
  match String.ofList cs with
  | "true" => some (.truth true)
  | "false" => some (.truth false)
  | _ => none

/-- The first operator that occurs outside, with the texts around it. -/
def comparisonParts? (cs : List Char) : Option (CompareOp × List Char × List Char) :=
  CompareOp.all.findSome? fun op => (cut? op.symbol.toList cs).map (op, ·)

/-- The text before a test for zero at the end of a text, and whether the test is for equality. -/
def zeroTest? (cs : List Char) : Option (List Char × Bool) :=
  match cs.reverse with
  | '0' :: rest =>
    match rest.dropWhile Text.isBlank with
    | '=' :: '=' :: before => some (before.reverse, true)
    | '=' :: '!' :: before => some (before.reverse, false)
    | _ => none
  | _ => none

/-- The dividend and the divisor around the first percent sign that has a text on either side, both
without a line break. `before` is what has been passed over, last character first. -/
def dividend? (before : List Char) : List Char → Option (List Char × List Char)
  | [] => none
  | c :: cs =>
    if c = '%' ∧ !before.isEmpty then
      let left := Text.trimBack before.reverse
      let divisor := Text.trim cs
      if left.contains '\n' ∨ divisor.isEmpty then none
      else if divisor.contains '\n' then dividend? (c :: before) cs
      else some (left, divisor)
    else dividend? (c :: before) cs

/-- The condition of a text that tests a remainder for zero. -/
def divisibilityOf? (cs : List Char) : Option Constraint := do
  let (body, divisible) ← zeroTest? cs
  let (left, divisor) ← dividend? [] body
  if (comparisonParts? left).isSome then none
  else some (.divisibility (String.ofList left) divisible (String.ofList divisor))

/-- The condition of a text that compares two terms. -/
def comparisonOf? (cs : List Char) : Option Constraint := do
  let (op, left, right) ← comparisonParts? cs
  let left := Text.trim left
  let right := Text.trim right
  if left.isEmpty || right.isEmpty then none
  else some (.comparison (String.ofList (stripParens left)) op (String.ofList right)
    (literalOf? right))

/-- The condition of a text that is neither a conjunction nor a disjunction. -/
def singleOf? (cs : List Char) : Option Constraint :=
  if 1 < (split '&' cs).length ∨ 1 < (split '|' cs).length then none
  else (divisibilityOf? cs).or (comparisonOf? cs)

/-! ### Whole texts -/

/-- The conditions of a conjunction, from those of its parts. -/
def Parsed.conjunction (parts : List Parsed) : Parsed where
  constraints := parts.flatMap Parsed.constraints
  complete := parts.all Parsed.complete

/-- The conditions of a disjunction, from those of its parts. -/
def Parsed.disjunction (parts : List Parsed) : Parsed where
  constraints := parts.flatMap Parsed.constraints
  complete := false

theorem length_strip_trim_le (cs : List Char) :
    (stripParens (Text.trim cs)).length ≤ cs.length :=
  Nat.le_trans (length_stripParens_le _) (length_trim_le cs)

/-- The conditions found in a text. -/
def parseChars (cs : List Char) : Parsed :=
  let text := stripParens (Text.trim cs)
  match (truthOf? text).or (singleOf? text) with
  | some k => ⟨[k], true⟩
  | none =>
    if _several : 1 < (split '&' text).length then
      .conjunction ((split '&' text).attach.map fun part => parseChars part.1)
    else if _several : 1 < (split '|' text).length then
      .disjunction ((split '|' text).attach.map fun part => parseChars part.1)
    else {}
termination_by cs.length
decreasing_by
  · exact Nat.lt_of_lt_of_le (length_lt_of_mem_split part.2 _several) (length_strip_trim_le cs)
  · exact Nat.lt_of_lt_of_le (length_lt_of_mem_split part.2 _several) (length_strip_trim_le cs)

/-- The conditions found in an expression. -/
def parse (expr : String) : Parsed := parseChars expr.toList

end ProcedureChart.Constraint
