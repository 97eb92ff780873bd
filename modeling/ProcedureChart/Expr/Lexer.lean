import ProcedureChart.Expr.Error
import ProcedureChart.Numeric.Reading
import ProcedureChart.Text.Character

/-!
# Cutting a source into tokens

`tokenize` cuts a source into lexemes. Each step takes one token off the front of the rest of the
source (`scan`); what it takes and what it leaves make up that rest, and it takes at least one
character. Both facts are part of the type of the step, so nothing of a source gets lost and the
loop ends.

A minus sign directly before a digit belongs to the number unless the token before it can end an
operand. A point belongs to a number only between two digits. Inside a text a backslash stands
for the character behind it.
-/

namespace ProcedureChart.Expr

/-- A token at the front of a text. -/
structure Scan (source : List Char) where
  token : Token
  /-- the characters of the token -/
  slice : List Char
  /-- what is left behind it -/
  rest : List Char
  slice_append_rest : slice ++ rest = source
  slice_ne_nil : slice ≠ []

/-- A scan makes progress. -/
theorem Scan.length_rest_lt {source : List Char} (s : Scan source) :
    s.rest.length < source.length := by
  have hlength := congrArg List.length s.slice_append_rest
  have hpos := List.length_pos_iff.2 s.slice_ne_nil
  rw [List.length_append] at hlength
  omega

/-! ### The kinds of tokens -/

/-- The digits at the front of a text and a fraction behind them, if the point has digits on both
sides; then the rest. -/
def splitNumber (cs : List Char) : List Char × List Char :=
  let whole := cs.takeWhile Numeric.isDigit
  match cs.dropWhile Numeric.isDigit with
  | '.' :: d :: tail =>
    if Numeric.isDigit d then
      (whole ++ '.' :: d :: tail.takeWhile Numeric.isDigit, tail.dropWhile Numeric.isDigit)
    else (whole, '.' :: d :: tail)
  | tail => (whole, tail)

theorem splitNumber_append (cs : List Char) : (splitNumber cs).1 ++ (splitNumber cs).2 = cs := by
  unfold splitNumber
  conv => rhs; rw [← List.takeWhile_append_dropWhile (p := Numeric.isDigit) (l := cs)]
  dsimp only
  split
  · next d tail heq =>
    split
    · rw [heq]; simp
    · rw [heq]
  · rfl

theorem splitNumber_ne_nil {c : Char} {cs : List Char} (h : Numeric.isDigit c = true) :
    (splitNumber (c :: cs)).1 ≠ [] := by
  unfold splitNumber
  rw [List.takeWhile_cons_of_pos h]
  dsimp only
  split
  · split <;> simp
  · simp

/-- The value of a number as it is written. -/
def numberValue (slice : List Char) : Float := (Numeric.readUnsigned slice).getD 0.0

/-- The characters of a name at the front of a text, and the rest. -/
def splitName (cs : List Char) : List Char × List Char :=
  (cs.takeWhile Text.isNameChar, cs.dropWhile Text.isNameChar)

theorem splitName_append (cs : List Char) : (splitName cs).1 ++ (splitName cs).2 = cs :=
  List.takeWhile_append_dropWhile

/-- A text up to its closing quote: the characters it holds, the characters it is written with (the
quote included), and the rest. -/
def splitText (quote : Char) : List Char → Option (List Char × List Char × List Char)
  | [] => none
  | '\\' :: c :: rest =>
    (splitText quote rest).map fun (held, raw, rest) => (c :: held, '\\' :: c :: raw, rest)
  | c :: rest =>
    if c = quote then some ([], [c], rest)
    else (splitText quote rest).map fun (held, raw, rest) => (c :: held, c :: raw, rest)

theorem splitText_append {quote : Char} {cs held raw rest : List Char}
    (h : splitText quote cs = some (held, raw, rest)) : raw ++ rest = cs := by
  fun_induction splitText quote cs generalizing held raw rest with
  | case1 => cases h
  | case2 c rest' ih =>
    obtain ⟨⟨held', raw', rest''⟩, hrec, heq⟩ := Option.map_eq_some_iff.1 h
    cases heq
    simp [ih hrec]
  | case3 rest' =>
    cases h
    rfl
  | case4 c rest' _ _ ih =>
    obtain ⟨⟨held', raw', rest''⟩, hrec, heq⟩ := Option.map_eq_some_iff.1 h
    cases heq
    simp [ih hrec]

/-- The first mark in the order of `Mark.all` that the text begins with. -/
def splitMark (cs : List Char) : Option { m : Mark // m.spelling <+: cs } :=
  Mark.all.findSome? fun m => if h : m.spelling <+: cs then some ⟨m, h⟩ else none

/-! ### One token -/

/-- Takes a token off the front of a text that does not begin with a blank. `operand` tells whether
the token before it can end an operand. -/
def scan (operand : Bool) (c : Char) (cs : List Char) : Except SyntaxFault (Scan (c :: cs)) :=
  if hdigit : Numeric.isDigit c then
    have h := splitNumber_append (c :: cs)
    let slice := (splitNumber (c :: cs)).1
    .ok ⟨.number (numberValue slice), slice, (splitNumber (c :: cs)).2, h,
      splitNumber_ne_nil hdigit⟩
  else if c == '-' && !operand && cs.head?.any Numeric.isDigit then
    have h := splitNumber_append cs
    let slice := (splitNumber cs).1
    .ok ⟨.number (-numberValue slice), c :: slice, (splitNumber cs).2,
      congrArg (c :: ·) h, by simp⟩
  else if Text.isNameStart c then
    have h := splitName_append cs
    let slice := c :: (splitName cs).1
    .ok ⟨.name (String.ofList slice), slice, (splitName cs).2, congrArg (c :: ·) h,
      by simp⟩
  else if c = '$' then
    have h := splitName_append cs
    let slice := (splitName cs).1
    if slice.isEmpty then .error .nameExpected
    else .ok ⟨.state (String.ofList slice), c :: slice, (splitName cs).2,
      congrArg (c :: ·) h, by simp⟩
  else if c = '\'' ∨ c = '"' then
    match h : splitText c cs with
    | none => .error .unterminatedText
    | some (held, raw, rest) =>
      .ok ⟨.text (String.ofList held), c :: raw, rest, congrArg (c :: ·) (splitText_append h),
        by simp⟩
  else
    match splitMark (c :: cs) with
    | none => .error (.unexpectedCharacter c)
    | some ⟨m, h⟩ =>
      .ok ⟨.mark m, m.spelling, (c :: cs).drop m.spelling.length,
        (List.prefix_iff_eq_append.1 h), m.spelling_ne_nil⟩

/-! ### All tokens -/

/-- The number of bytes that characters take in UTF-8. -/
def width (cs : List Char) : Nat := cs.foldl (fun n c => n + c.utf8Size) 0

/-- The lexemes of a text that stands at a byte position, behind the token `previous`. -/
def lexemes (previous : Option Token) (position : Nat) (cs : List Char) :
    Except SyntaxError (List Lexeme) :=
  match cs with
  | [] => .ok []
  | c :: rest =>
    if Text.isBlank c then lexemes previous (position + c.utf8Size) rest
    else
      match scan (previous.any Token.endsOperand) c rest with
      | .error fault => .error ⟨position, fault⟩
      | .ok s =>
        match lexemes (some s.token) (position + width s.slice) s.rest with
        | .error error => .error error
        | .ok more => .ok (⟨s.token, position⟩ :: more)
termination_by cs.length
decreasing_by
  · exact Nat.lt_succ_self _
  · exact s.length_rest_lt

/-- The lexemes of a source. -/
def tokenize (source : String) : Except SyntaxError (List Lexeme) :=
  lexemes none 0 source.toList

end ProcedureChart.Expr
