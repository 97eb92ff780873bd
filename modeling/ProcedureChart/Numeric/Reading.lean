import ProcedureChart.Numeric.Shortest

/-!
# Reading decimal numerals

Two grammars for numbers in text. `readUnsigned` takes digits with at least one of them before or
behind an optional point, and an optional exponent. `readNumeral` takes everything that counts as a
number when a text is used as one: such a numeral or a word for infinity or NaN, in any case of
letters, with an optional sign. Both round correctly to the nearest double, however many digits
there are. An exponent alone is cut short: its digits count until it reaches 65536, and those behind
are passed over, so `e720001` is the exponent 72000.
-/

namespace ProcedureChart.Numeric

/-- The value of a run of decimal digits. -/
def digitsValue (cs : List Char) : Nat :=
  cs.foldl (fun n c => 10 * n + (c.toNat - '0'.toNat)) 0

/-- The value of a run of decimal digits, read only until it reaches `limit`: the digits behind that
place are passed over. -/
def digitsUpTo (limit : Nat) (cs : List Char) : Nat :=
  cs.foldl (fun n c => if n < limit then 10 * n + (c.toNat - '0'.toNat) else n) 0

/-- Whether a character is one of the ten ASCII digits. -/
def isDigit (c : Char) : Bool := '0' ≤ c && c ≤ '9'

/-- The double nearest to `mantissa · 10 ^ exponent`. Numbers far outside the range of doubles are
settled by their digit count, so that no huge power is formed. -/
def nearest (mantissa : Nat) (exponent : Int) : Float :=
  let size := (mantissa.log2 : Int) * 30103 / 100000 + exponent
  if mantissa = 0 ∨ size < -400 then 0.0
  else if 400 < size then infinity
  else if exponent < 0 then Float.ofScientific mantissa true (-exponent).toNat
  else Float.ofScientific mantissa false exponent.toNat

/-- How many digits of a numeral are weighed, from the first one that is not 0. No number halfway
between two doubles has as many digits. -/
def weighedDigits : Nat := 800

/-- The double written by whole digits, fraction digits and an exponent. Of the digits behind the
weighed ones it matters only whether one of them is not 0, so a single 1 stands for them then. -/
def ofDigits (whole fraction : List Char) (exponent : Int) : Float :=
  let digits := (whole ++ fraction).dropWhile (· == '0')
  let weighed := digits.take weighedDigits
  let further := digits.drop weighedDigits
  let last := exponent - fraction.length
  if further.all (· == '0') then nearest (digitsValue weighed) (last + further.length)
  else nearest (10 * digitsValue weighed + 1) (last + further.length - 1)

/-- An exponent takes no more digits once it has reached this value. -/
def exponentLimit : Nat := 65536

/-- Reads an exponent part (`e`, an optional sign, digits); an empty text is the exponent 0. -/
def readExponent : List Char → Option Int
  | [] => some 0
  | e :: rest =>
    if e == 'e' || e == 'E' then
      let (negative, digits) : Bool × List Char := match rest with
        | '-' :: ds => (true, ds)
        | '+' :: ds => (false, ds)
        | ds => (false, ds)
      if digits.isEmpty || !digits.all isDigit then none
      else
        let exponent : Int := digitsUpTo exponentLimit digits
        some (if negative then -exponent else exponent)
    else none

/-- Reads an unsigned numeral: digits with at most one point among or around them, and an optional
exponent. -/
def readUnsigned (cs : List Char) : Option Float :=
  let whole := cs.takeWhile isDigit
  let afterWhole := cs.dropWhile isDigit
  let (fraction, rest) : List Char × List Char := match afterWhole with
    | '.' :: tail => (tail.takeWhile isDigit, tail.dropWhile isDigit)
    | tail => ([], tail)
  if whole.isEmpty && fraction.isEmpty then none
  else (readExponent rest).map (ofDigits whole fraction)

/-- The words that stand for infinity and NaN, in lower case. -/
def readWord (cs : List Char) : Option Float :=
  match String.ofList (cs.map Char.toLower) with
  | "inf" => some infinity
  | "infinity" => some infinity
  | "nan" => some nan
  | _ => none

/-- Reads a numeral with an optional sign. -/
def readNumeral (cs : List Char) : Option Float :=
  match cs with
  | '-' :: rest => ((readUnsigned rest).or (readWord rest)).map fun x => -x
  | '+' :: rest => (readUnsigned rest).or (readWord rest)
  | _ => (readUnsigned cs).or (readWord cs)

end ProcedureChart.Numeric
