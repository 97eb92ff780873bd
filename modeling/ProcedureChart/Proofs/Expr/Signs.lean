import ProcedureChart.Proofs.Expr.Descent
import ProcedureChart.Proofs.Expr.Spacing
import ProcedureChart.Proofs.Numeric.Numeral

/-!
# Signs of literals

A minus sign directly before a digit is part of the number, unless an operand ends in front of it.
The sign can be split off again (`splitSigns`). The scanner looks at the token in front of the sign
and the parser at what it is reading, but they agree: no negative number stands behind the end of an
operand (`signsOpen_of_lexemes`), and everywhere else the parser reads an operand, which may begin
with a sign. So what the parser sees of the next lexeme behind an operand is the same with the signs
split off.
-/

namespace ProcedureChart.Expr

variable {stop : Nat} {place : Nat → Nat} {ts rest : List Lexeme} {operand : Bool}

/-! ### Splitting off signs -/

/-- Whether a token is a number with a minus sign. -/
def Token.isNegative : Token → Bool
  | .number x => Numeric.isNegative x
  | _ => false

/-- A negative number as a minus sign, which stands where the number stood, and the positive number,
which may stand anywhere; another lexeme as it is. -/
def Lexeme.splitSign (place : Nat → Nat) (t : Lexeme) : List Lexeme :=
  match t.token with
  | .number x =>
    if Numeric.isNegative x then [⟨.mark .minus, t.position⟩, ⟨.number (-x), place t.position⟩]
    else [t]
  | _ => [t]

/-- Lexemes with the sign of every negative number split off. -/
def splitSigns (place : Nat → Nat) (ts : List Lexeme) : List Lexeme :=
  ts.flatMap (Lexeme.splitSign place)

/-- What is no negative number stays as it is. -/
theorem splitSigns_cons {t : Lexeme} (h : t.token.isNegative = false) :
    splitSigns place (t :: rest) = t :: splitSigns place rest := by
  have hsplit : t.splitSign place = [t] := by
    unfold Lexeme.splitSign
    split
    · next x hx =>
      rw [hx] at h
      exact if_neg (Bool.eq_false_iff.1 h)
    · rfl
  rw [splitSigns, List.flatMap_cons, hsplit]
  rfl

/-- A negative number makes room for two lexemes. The sign takes its position, and the number stands
where one says. -/
theorem splitSigns_cons_negative {t : Lexeme} {x : Float} (ht : t.token = .number x)
    (hx : Numeric.isNegative x) :
    splitSigns place (t :: rest) =
      ⟨.mark .minus, t.position⟩ :: ⟨.number (-x), place t.position⟩ :: splitSigns place rest := by
  rw [splitSigns, List.flatMap_cons, Lexeme.splitSign, ht]
  dsimp only
  rw [if_pos hx]
  rfl

/-- A negative token is a number. -/
theorem Token.eq_number_of_isNegative {t : Token} (h : t.isNegative) :
    ∃ x, t = .number x ∧ Numeric.isNegative x := by
  cases t with
  | number x => exact ⟨x, rfl, h⟩
  | text | name | state | mark => cases h

/-- Splitting the signs leaves something to read. -/
theorem exists_splitSigns_cons (place : Nat → Nat) (t : Lexeme) (rest : List Lexeme) :
    ∃ u us, splitSigns place (t :: rest) = u :: us := by
  cases ht : t.token.isNegative with
  | false => exact ⟨t, _, splitSigns_cons ht⟩
  | true =>
    obtain ⟨x, htoken, hx⟩ := Token.eq_number_of_isNegative ht
    exact ⟨_, _, splitSigns_cons_negative htoken hx⟩

/-- No negative number is left: each has become a mark and the positive number. -/
theorem not_isNegative_of_mem_splitSigns {t : Lexeme} (h : t ∈ splitSigns place ts) :
    t.token.isNegative = false := by
  obtain ⟨u, -, ht⟩ := List.mem_flatMap.1 h
  unfold Lexeme.splitSign at ht
  split at ht
  · next x hx =>
    split at ht
    · next hnegative =>
      rcases List.mem_cons.1 ht with rfl | ht
      · rfl
      · obtain rfl := List.mem_singleton.1 ht
        exact Numeric.isNegative_neg hnegative
    · next hnegative =>
      obtain rfl := List.mem_singleton.1 ht
      rw [hx]
      exact Bool.eq_false_iff.2 hnegative
  · next hnumber =>
    obtain rfl := List.mem_singleton.1 ht
    cases htoken : t.token with
    | number x => exact absurd htoken (hnumber x)
    | text | name | state | mark => rfl

/-! ### Where negative numbers stand -/

/-- Negative numbers stand only where no operand ends in front of them. `operand` tells whether one
ends in front of the first lexeme. -/
def SignsOpen : Bool → List Lexeme → Prop
  | _, [] => True
  | operand, t :: rest =>
    (t.token.isNegative → operand = false) ∧ SignsOpen t.token.endsOperand rest

/-- Behind an operand no negative number stands in front, so what may stand there may stand
anywhere. -/
theorem SignsOpen.weaken (h : SignsOpen operand ts) : SignsOpen false ts := by
  cases ts with
  | nil => trivial
  | cons t rest => exact ⟨fun _ => rfl, h.2⟩

/-- Behind the end of an operand there is no negative number. -/
theorem SignsOpen.not_isNegative {t : Lexeme} (h : SignsOpen true (t :: rest)) :
    t.token.isNegative = false :=
  Bool.eq_false_iff.2 fun hnegative => nomatch h.1 hnegative

/-- What is written without a sign has none. -/
theorem isNegative_numberValue {w : List Char} (hw : IsUnsigned w) :
    Numeric.isNegative (numberValue w) = false :=
  Numeric.isNegative_of_sign? (Numeric.sign?_of_readUnsigned (readUnsigned_of_isUnsigned hw))

/-- A minus sign is part of a number only where no operand ends in front of it. -/
theorem Spells.operand_of_isNegative {t : Token} {w : List Char} (h : Spells operand t w)
    (hnegative : t.isNegative) : operand = false := by
  cases h with
  | number hw =>
    rw [Token.isNegative, isNegative_numberValue hw] at hnegative
    cases hnegative
  | negative hoperand => exact hoperand
  | name | state | text | mark => cases hnegative

/-- The scanner takes a negative number only where no operand ends. -/
theorem signsOpen_of_lexemes {previous : Option Token} {position : Nat} {cs : List Char}
    (h : lexemes previous position cs = .ok ts) :
    SignsOpen (previous.any Token.endsOperand) ts := by
  fun_induction lexemes previous position cs generalizing ts with
  | case1 =>
    cases h
    trivial
  | case2 previous position c rest hc ih => exact ih h
  | case3 => cases h
  | case4 => cases h
  | case5 previous position c rest hc s hs more hmore ih =>
    cases h
    exact ⟨(spells_of_scan hs).1.operand_of_isNegative, ih hmore⟩

/-! ### Single lexemes -/

/-- A mark is found where it was; only a minus sign may be a new one. It is new in front of a
negative number, so the hypothesis excludes that. -/
theorem behind?_splitSigns {m : Mark}
    (hm : m = .minus → ∀ t ∈ ts.head?, t.token.isNegative = false) :
    behind? m (splitSigns place ts) = (behind? m ts).map (splitSigns place) := by
  cases ts with
  | nil => rfl
  | cons t rest =>
    cases ht : t.token.isNegative with
    | false =>
      rw [splitSigns_cons ht, behind?_cons, behind?_cons]
      split <;> rfl
    | true =>
      obtain ⟨x, htoken, hx⟩ := Token.eq_number_of_isNegative ht
      have hminus : Token.mark .minus ≠ .mark m := by
        rintro ⟨⟩
        rw [hm rfl t rfl] at ht
        cases ht
      rw [splitSigns_cons_negative htoken hx, behind?_cons, behind?_cons, htoken, if_neg hminus,
        if_neg nofun]
      rfl

/-- Other marks are found where they were. -/
theorem behind?_splitSigns_of_ne {m : Mark} (hm : m ≠ .minus) :
    behind? m (splitSigns place ts) = (behind? m ts).map (splitSigns place) :=
  behind?_splitSigns fun h => absurd h hm

/-- Behind a mark, negative numbers stand where the mark allows it. -/
theorem SignsOpen.behind? {m : Mark} (h : SignsOpen operand ts)
    (hm : Expr.behind? m ts = some rest) :
    SignsOpen (Token.mark m).endsOperand rest := by
  obtain ⟨t, htoken, rfl⟩ := behind?_eq_some.1 hm
  rw [← htoken]
  exact h.2

/-- Behind an operand, both lists have the same operator: a minus sign that was split off never
stands there. -/
theorem behindOperator?_splitSigns {level : Level} (h : SignsOpen true ts) :
    behindOperator? level (splitSigns place ts) =
      (behindOperator? level ts).map (Prod.map id (splitSigns place)) := by
  cases ts with
  | nil => rfl
  | cons t rest =>
    rw [splitSigns_cons h.not_isNegative]
    obtain ⟨token, position⟩ := t
    cases token with
    | mark m =>
      simp only [behindOperator?, operator?]
      cases Operator.ofMark? m with
      | none => rfl
      | some op =>
        dsimp only
        split <;> rfl
    | number | text | name | state => rfl

/-- Behind an operator a negative number may stand. -/
theorem SignsOpen.behindOperator? {level : Level} {op : Operator} (h : SignsOpen operand ts)
    (hop : Expr.behindOperator? level ts = some (op, rest)) : SignsOpen false rest := by
  obtain ⟨t, htoken, -, rfl⟩ := behindOperator?_eq_some.1 hop
  exact h.2.weaken

/-- Behind an operand, both lists have the same name. -/
theorem behindName?_splitSigns (h : SignsOpen true ts) :
    behindName? (splitSigns place ts) =
      (behindName? ts).map (Prod.map id (splitSigns place)) := by
  cases ts with
  | nil => rfl
  | cons t rest =>
    rw [splitSigns_cons h.not_isNegative]
    obtain ⟨token, position⟩ := t
    cases token <;> rfl

theorem SignsOpen.behindName? {s : String} (h : SignsOpen operand ts)
    (hs : Expr.behindName? ts = some (s, rest)) : SignsOpen true rest := by
  obtain ⟨t, htoken, rfl⟩ := behindName?_eq_some.1 hs
  have h := h.2
  rw [htoken] at h
  exact h

/-- Behind an operand, both lists go on at the same position. -/
theorem nextPosition_splitSigns (h : SignsOpen true ts) :
    nextPosition stop (splitSigns place ts) = nextPosition stop ts := by
  cases ts with
  | nil => rfl
  | cons t rest =>
    rw [splitSigns_cons h.not_isNegative]
    rfl

/-- So a fault behind an operand is found at the same position, and with the same token. -/
theorem expectedFault_splitSigns (what : Expected) (h : SignsOpen true ts) :
    expectedFault stop what (splitSigns place ts) = expectedFault stop what ts := by
  rw [expectedFault, expectedFault, nextPosition_splitSigns h]
  cases ts with
  | nil => rfl
  | cons t rest =>
    rw [splitSigns_cons h.not_isNegative]
    rfl

end ProcedureChart.Expr
