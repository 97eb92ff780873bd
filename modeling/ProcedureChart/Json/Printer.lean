import ProcedureChart.Json.Basic
import ProcedureChart.Numeric.Shortest

/-!
# Writing JSON texts

`Json.render` writes a value on one line, `Json.renderIndented` with one item or field on a line. A
real number is written by its shortest digits: with a point where that takes no more than sixteen
digits before it or four zeros behind it, otherwise with an exponent. What is not finite is written
as null.
-/

namespace ProcedureChart.Json

/-! ### Texts and numbers -/

/-- The hexadecimal digit of a number below sixteen. -/
def hexDigit (n : Nat) : Char :=
  if n < 10 then Char.ofNat ('0'.toNat + n) else Char.ofNat ('a'.toNat + n - 10)

/-- A character as it stands inside quotes. -/
def quotedChar (c : Char) : List Char :=
  if c = '"' then ['\\', '"']
  else if c = '\\' then ['\\', '\\']
  else if c = '\n' then ['\\', 'n']
  else if c = '\r' then ['\\', 'r']
  else if c = '\t' then ['\\', 't']
  else if c = '\x08' then ['\\', 'b']
  else if c = '\x0c' then ['\\', 'f']
  else if c.toNat < 0x20 then
    ['\\', 'u', '0', '0', hexDigit (c.toNat / 16), hexDigit (c.toNat % 16)]
  else [c]

/-- A text in quotes. -/
def quote (s : String) : String :=
  (s.foldl (fun acc c => (quotedChar c).foldl String.push acc) "\"").push '"'

/-- The text of a positive decimal with its digits `digits`. -/
def realDigits (d : Numeric.Decimal) : String :=
  let text := toString d.digits
  -- the place of the point, counted from the first digit
  let place : Int := text.length + d.exponent
  if 0 ≤ d.exponent ∧ place ≤ 16 then d.positional ++ ".0"
  else if -5 < place ∧ place ≤ 16 then d.positional
  else
    let tail := text.toList.drop 1
    let point := if tail.isEmpty then [] else '.' :: tail
    String.ofList (text.toList.take 1 ++ point) ++ "e" ++ toString (place - 1)

/-- The text of a number. -/
def Number.render : Number → String
  | integer n => toString n
  | real x =>
    match Numeric.dyadic? x with
    | none => "null"
    | some d =>
      let sign := if d.negative then "-" else ""
      if d.mantissa = 0 then sign ++ "0.0"
      else sign ++ realDigits (Numeric.shortest d.mantissa d.exponent)

/-! ### Values -/

mutual

/-- Adds the text of a value to what is already written. -/
def renderOnto (done : String) : Json → String
  | .null => done ++ "null"
  | .bool b => done ++ if b then "true" else "false"
  | .number n => done ++ n.render
  | .text s => done ++ quote s
  | .list items => (renderItems (done ++ "[") "" items) ++ "]"
  | .object fields => (renderFields (done ++ "\x7b") "" fields) ++ "\x7d"

/-- Adds the items of a list, each behind a separator. -/
def renderItems (done : String) (separator : String) : List Json → String
  | [] => done
  | item :: rest => renderItems (renderOnto (done ++ separator) item) "," rest

/-- Adds the fields of an object, each behind a separator. -/
def renderFields (done : String) (separator : String) : List (String × Json) → String
  | [] => done
  | (name, value) :: rest =>
    renderFields (renderOnto (done ++ separator ++ quote name ++ ":") value) "," rest

end

/-- The text of a value on one line. -/
def render (j : Json) : String := renderOnto "" j

/-- A new line and an indentation of two blanks a level. -/
def newLine (level : Nat) : String := "\n" ++ "".pushn ' ' (2 * level)

mutual

/-- Adds the indented text of a value at a level of indentation. -/
def indentOnto (level : Nat) (done : String) : Json → String
  | .list (item :: items) =>
    indentItems (level + 1) (indentOnto (level + 1) (done ++ "[" ++ newLine (level + 1)) item) items
      ++ newLine level ++ "]"
  | .object ((name, value) :: fields) =>
    indentFields (level + 1)
        (indentOnto (level + 1) (done ++ "\x7b" ++ newLine (level + 1) ++ quote name ++ ": ") value)
        fields
      ++ newLine level ++ "\x7d"
  | .null => done ++ "null"
  | .bool b => done ++ if b then "true" else "false"
  | .number n => done ++ n.render
  | .text s => done ++ quote s
  | .list [] => done ++ "[]"
  | .object [] => done ++ "\x7b\x7d"

/-- Adds further items of a list. -/
def indentItems (level : Nat) (done : String) : List Json → String
  | [] => done
  | item :: rest =>
    indentItems level (indentOnto level (done ++ "," ++ newLine level) item) rest

/-- Adds further fields of an object. -/
def indentFields (level : Nat) (done : String) : List (String × Json) → String
  | [] => done
  | (name, value) :: rest =>
    indentFields level
      (indentOnto level (done ++ "," ++ newLine level ++ quote name ++ ": ") value) rest

end

/-- The text of a value with one item or field on a line. -/
def renderIndented (j : Json) : String := indentOnto 0 "" j

end ProcedureChart.Json
