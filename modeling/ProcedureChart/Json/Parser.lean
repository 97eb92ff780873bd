import ProcedureChart.Json.Basic
import ProcedureChart.Numeric.Reading

/-!
# Reading JSON texts

`Json.parse` accepts exactly one JSON value, blanks around it aside. Lists and objects may nest 127
deep. Every reader below takes something off the front of a text and leaves a shorter one, by its
type.

A number is an integer if it is written as one and fits 64 bits. Any other number is real: its
digits are gathered into a 64-bit significand as long as they fit, further digits of the integer
part counting as powers of ten and further digits of the fraction not at all, and the significand
is scaled by one power of ten. A number that scales to infinity is refused.
-/

namespace ProcedureChart.Json

/-- What is left of a text off which something was read. -/
abbrev Rest (cs : List Char) : Type := { rest : List Char // rest.length < cs.length }

/-! ### Blanks -/

/-- Whether a character may stand between tokens. -/
def isBlank (c : Char) : Bool := c == ' ' || c == '\n' || c == '\t' || c == '\r'

/-- A text without the blanks in front. -/
def skipBlanks : (cs : List Char) → { rest : List Char // rest.length ≤ cs.length }
  | [] => ⟨[], Nat.le_refl _⟩
  | c :: cs =>
    if isBlank c then
      let ⟨rest, h⟩ := skipBlanks cs
      ⟨rest, Nat.le_succ_of_le h⟩
    else ⟨c :: cs, Nat.le_refl _⟩

/-- Passes over blanks and then one given character. -/
def skip? (mark : Char) (cs : List Char) : Option (Rest cs) :=
  match skipBlanks cs with
  | ⟨[], _⟩ => none
  | ⟨c :: rest, h⟩ =>
    if c = mark then some ⟨rest, by simp only [List.length_cons] at h; omega⟩ else none

/-! ### Texts -/

/-- The value of a hexadecimal digit. -/
def hexDigit? (c : Char) : Option Nat :=
  if '0' ≤ c ∧ c ≤ '9' then some (c.toNat - '0'.toNat)
  else if 'a' ≤ c ∧ c ≤ 'f' then some (c.toNat - 'a'.toNat + 10)
  else if 'A' ≤ c ∧ c ≤ 'F' then some (c.toNat - 'A'.toNat + 10)
  else none

/-- Reads four hexadecimal digits. -/
def hexCode? : (cs : List Char) → Option (Nat × Rest cs)
  | a :: b :: c :: d :: rest => do
    let a ← hexDigit? a
    let b ← hexDigit? b
    let c ← hexDigit? c
    let d ← hexDigit? d
    return (((a * 16 + b) * 16 + c) * 16 + d, ⟨rest, by simp only [List.length_cons]; omega⟩)
  | _ => none

/-- Reads what follows the `u` of an escape: the code of a character, or the two halves of one in
two escapes. A half alone is refused. -/
def unicodeEscape? (cs : List Char) : Option (Char × Rest cs) :=
  match hexCode? cs with
  | none => none
  | some (high, ⟨rest, h⟩) =>
    if high < 0xD800 ∨ 0xE000 ≤ high then some (Char.ofNat high, ⟨rest, h⟩)
    else if 0xDC00 ≤ high then none
    else
      match rest, h with
      | '\\' :: 'u' :: rest', h =>
        match hexCode? rest' with
        | none => none
        | some (low, ⟨rest'', h'⟩) =>
          if 0xDC00 ≤ low ∧ low < 0xE000 then
            some (Char.ofNat (0x10000 + (high - 0xD800) * 0x400 + (low - 0xDC00)),
              ⟨rest'', by simp only [List.length_cons] at h; omega⟩)
          else none
      | _, _ => none

/-- Reads what follows a backslash. -/
def escape? : (cs : List Char) → Option (Char × Rest cs)
  | [] => none
  | c :: rest =>
    let single (x : Char) : Option (Char × Rest (c :: rest)) := some (x, ⟨rest, by simp⟩)
    match c with
    | '"' => single '"'
    | '\\' => single '\\'
    | '/' => single '/'
    | 'b' => single '\x08'
    | 'f' => single '\x0c'
    | 'n' => single '\n'
    | 'r' => single '\r'
    | 't' => single '\t'
    | 'u' => (unicodeEscape? rest).map fun (x, ⟨r, h⟩) =>
      (x, ⟨r, by simp only [List.length_cons]; omega⟩)
    | _ => none

/-- Reads a text behind its opening quote; `done` holds the characters before, last one first. -/
def textBody? (done : List Char) (cs : List Char) : Option (String × Rest cs) :=
  match cs with
  | [] => none
  | c :: r₁ =>
    if c = '"' then some (String.ofList done.reverse, ⟨r₁, by simp⟩)
    else if c = '\\' then
      match escape? r₁ with
      | none => none
      | some (x, ⟨r₂, h₂⟩) =>
        match textBody? (x :: done) r₂ with
        | none => none
        | some (s, ⟨r₃, h₃⟩) => some (s, ⟨r₃, by simp only [List.length_cons]; omega⟩)
    else if c.toNat < 0x20 then none
    else
      match textBody? (c :: done) r₁ with
      | none => none
      | some (s, ⟨r₂, h₂⟩) => some (s, ⟨r₂, by simp only [List.length_cons]; omega⟩)
termination_by cs.length
decreasing_by all_goals (simp only [List.length_cons]; omega)

/-! ### Numbers -/

/-- Adds digits to a significand as long as it fits 64 bits, and counts them. -/
def gather (significand : Nat) : List Char → Nat × Nat
  | [] => (significand, 0)
  | c :: cs =>
    let next := significand * 10 + (c.toNat - '0'.toNat)
    if next < Numeric.twoPow 64 then
      let (result, count) := gather next cs
      (result, count + 1)
    else (significand, 0)

/-- A power of ten, correctly rounded. -/
def powerOfTen (n : Nat) : Float := Float.ofScientific 1 false n

/-- A significand scaled by a power of ten; nothing if that is infinite. Scaling down by more than
308 places is done in two steps, and by more than twice as many it ends at zero. -/
def scale? (significand : Nat) (exponent : Int) : Option Float :=
  let x := Float.ofNat significand
  if significand = 0 then some 0.0
  else if 308 < exponent then none
  else if 0 ≤ exponent then
    let y := x * powerOfTen exponent.toNat
    if y.isInf then none else some y
  else if -308 ≤ exponent then some (x / powerOfTen (-exponent).toNat)
  else if -616 ≤ exponent then some (x / powerOfTen 308 / powerOfTen (-exponent - 308).toNat)
  else some 0.0

/-- The number of its integer digits, fraction digits and exponent; a fraction that is not written
and an exponent that is not written are `none`. -/
def numberOf? (negative : Bool) (whole : List Char) (fraction : Option (List Char))
    (exponent : Option Int) : Option Number :=
  let (significand, count) := gather 0 whole
  let dropped := whole.length - count
  match fraction, exponent, dropped with
  | none, none, 0 =>
    if !negative then some (.integer significand)
    else if significand = 0 ∨ Numeric.twoPow 63 < significand then
      some (.real (-Float.ofNat significand))
    else some (.integer (-significand))
  | fraction, exponent, dropped =>
    let (significand, places) := gather significand (fraction.getD [])
    let x := scale? significand ((dropped : Int) - places + exponent.getD 0)
    x.map fun x => .real (if negative then -x else x)

/-- What is left of a text off which something may have been read. -/
abbrev Remainder (cs : List Char) : Type := { rest : List Char // rest.length ≤ cs.length }

theorem length_dropWhile_le {α : Type} (p : α → Bool) (cs : List α) :
    (cs.dropWhile p).length ≤ cs.length := (List.dropWhile_sublist p).length_le

/-- Reads the digits in front; there has to be one. -/
def digits? : (cs : List Char) → Option (List Char × Rest cs)
  | [] => none
  | c :: cs =>
    if Numeric.isDigit c then
      some (c :: cs.takeWhile Numeric.isDigit, ⟨cs.dropWhile Numeric.isDigit, by
        have := length_dropWhile_le Numeric.isDigit cs
        simp only [List.length_cons]
        omega⟩)
    else none

/-- Reads a sign, if it is in front. -/
def sign? (mark : Char) : (cs : List Char) → Bool × Remainder cs
  | [] => (false, ⟨[], Nat.le_refl _⟩)
  | c :: cs => if c = mark then (true, ⟨cs, Nat.le_succ _⟩) else (false, ⟨c :: cs, Nat.le_refl _⟩)

/-- Reads a fraction, if a point is in front. -/
def fraction? (cs : List Char) : Option (Option (List Char) × Remainder cs) :=
  match sign? '.' cs with
  | (false, rest) => some (none, rest)
  | (true, ⟨r₁, h₁⟩) =>
    match digits? r₁ with
    | none => none
    | some (digits, ⟨r₂, h₂⟩) => some (some digits, ⟨r₂, by omega⟩)

/-- An exponent from here on is too large for any text to make up for by its digits, so the digits
behind make no difference. -/
def exponentLimit : Nat := Numeric.twoPow 31

/-- Reads an exponent, if its letter is in front. -/
def exponent? (cs : List Char) : Option (Option Int × Remainder cs) :=
  match cs with
  | [] => some (none, ⟨[], Nat.le_refl _⟩)
  | c :: r₁ =>
    if c = 'e' ∨ c = 'E' then
      let (negative, ⟨r₂, h₂⟩) := sign? '-' r₁
      let ⟨r₃, h₃⟩ := if negative then ⟨r₂, Nat.le_refl _⟩ else (sign? '+' r₂).2
      match digits? r₃ with
      | none => none
      | some (digits, ⟨r₄, h₄⟩) =>
        let n : Int := Numeric.digitsUpTo exponentLimit digits
        some (some (if negative then -n else n), ⟨r₄, by simp only [List.length_cons]; omega⟩)
    else some (none, ⟨c :: r₁, Nat.le_refl _⟩)

/-- Reads a number. Its integer part begins with 0 only if it is 0. -/
def number? (cs : List Char) : Option (Number × Rest cs) :=
  let (negative, ⟨r₁, h₁⟩) := sign? '-' cs
  match digits? r₁ with
  | none => none
  | some (whole, ⟨r₂, h₂⟩) =>
    if whole.head? = some '0' ∧ whole.length ≠ 1 then none
    else
      match fraction? r₂ with
      | none => none
      | some (fraction, ⟨r₃, h₃⟩) =>
        match exponent? r₃ with
        | none => none
        | some (exponent, ⟨r₄, h₄⟩) =>
          (numberOf? negative whole fraction exponent).map fun n => (n, ⟨r₄, by omega⟩)

/-! ### Values -/

/-- Reads a word and gives the value it stands for. -/
def word? (word : List Char) (value : Json) (h : word ≠ []) (cs : List Char) :
    Option (Json × Rest cs) :=
  if hp : word <+: cs then
    some (value, ⟨cs.drop word.length, by
      have hpos := List.length_pos_iff.2 h
      have hle := hp.length_le
      rw [List.length_drop]
      omega⟩)
  else none

/-- Reads a value that is not a list or an object. -/
def scalar? (cs : List Char) : Option (Json × Rest cs) :=
  match cs with
  | [] => none
  | c :: r₁ =>
    if c = '"' then
      (textBody? [] r₁).map fun (s, ⟨r₂, h₂⟩) =>
        (.text s, ⟨r₂, by simp only [List.length_cons]; omega⟩)
    else if c = 'n' then word? ['n', 'u', 'l', 'l'] .null (by decide) (c :: r₁)
    else if c = 't' then word? ['t', 'r', 'u', 'e'] (.bool true) (by decide) (c :: r₁)
    else if c = 'f' then word? ['f', 'a', 'l', 's', 'e'] (.bool false) (by decide) (c :: r₁)
    else (number? (c :: r₁)).map fun (n, rest) => (.number n, rest)

mutual

/-- Reads a value in which lists and objects may nest `depth` deep. -/
def value? (depth : Nat) (cs : List Char) : Option (Json × Rest cs) :=
  match skip? '[' cs with
  | some ⟨r₁, h₁⟩ =>
    if depth = 0 then none
    else
      match skip? ']' r₁ with
      | some ⟨r₂, h₂⟩ => some (.list [], ⟨r₂, by omega⟩)
      | none =>
        match items? (depth - 1) r₁ with
        | none => none
        | some (items, ⟨r₂, h₂⟩) => some (.list items, ⟨r₂, by omega⟩)
  | none =>
    match skip? '\x7b' cs with
    | some ⟨r₁, h₁⟩ =>
      if depth = 0 then none
      else
        match skip? '\x7d' r₁ with
        | some ⟨r₂, h₂⟩ => some (.object [], ⟨r₂, by omega⟩)
        | none =>
          match members? (depth - 1) r₁ with
          | none => none
          | some (fields, ⟨r₂, h₂⟩) => some (.object fields, ⟨r₂, by omega⟩)
    | none =>
      let ⟨r₁, h₁⟩ := skipBlanks cs
      match scalar? r₁ with
      | none => none
      | some (value, ⟨r₂, h₂⟩) => some (value, ⟨r₂, by omega⟩)
termination_by cs.length * 2

/-- Reads the items of a list, of which there is one, and the bracket behind them. -/
def items? (depth : Nat) (cs : List Char) : Option (List Json × Rest cs) :=
  match value? depth cs with
  | none => none
  | some (item, ⟨r₁, h₁⟩) =>
    match skip? ',' r₁ with
    | some ⟨r₂, h₂⟩ =>
      match items? depth r₂ with
      | none => none
      | some (items, ⟨r₃, h₃⟩) => some (item :: items, ⟨r₃, by omega⟩)
    | none =>
      match skip? ']' r₁ with
      | none => none
      | some ⟨r₂, h₂⟩ => some ([item], ⟨r₂, by omega⟩)
termination_by cs.length * 2 + 1

/-- Reads the fields of an object, of which there is one, and the brace behind them. -/
def members? (depth : Nat) (cs : List Char) : Option (List (String × Json) × Rest cs) :=
  match skip? '"' cs with
  | none => none
  | some ⟨r₁, h₁⟩ =>
    match textBody? [] r₁ with
    | none => none
    | some (name, ⟨r₂, h₂⟩) =>
      match skip? ':' r₂ with
      | none => none
      | some ⟨r₃, h₃⟩ =>
        match value? depth r₃ with
        | none => none
        | some (value, ⟨r₄, h₄⟩) =>
          match skip? ',' r₄ with
          | some ⟨r₅, h₅⟩ =>
            match members? depth r₅ with
            | none => none
            | some (fields, ⟨r₆, h₆⟩) => some ((name, value) :: fields, ⟨r₆, by omega⟩)
          | none =>
            match skip? '\x7d' r₄ with
            | none => none
            | some ⟨r₅, h₅⟩ => some ([(name, value)], ⟨r₅, by omega⟩)
termination_by cs.length * 2

end

/-- How deep lists and objects may nest. -/
def maxDepth : Nat := 127

/-- The value of a JSON text. -/
def parse (text : String) : Option Json :=
  match value? maxDepth text.toList with
  | some (value, ⟨rest, _⟩) => if (skipBlanks rest).1.isEmpty then some value else none
  | none => none

end ProcedureChart.Json
