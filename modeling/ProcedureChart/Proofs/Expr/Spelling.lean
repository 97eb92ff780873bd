import ProcedureChart.Expr.Lexer

/-!
# How tokens are written

What the scanner takes off the front of a text can be said without the scanner: the characters of a
token (`Spells`), and what stands behind them, which does not continue them (`Token.EndsBefore`).
Both are read off the scanner once (`spells_of_scan`).
-/

namespace ProcedureChart.Expr

variable {operand : Bool} {c quote : Char} {cs held raw rest : List Char}

/-! ### Written tokens -/

/-- Digits, and a fraction behind them if there is a point. -/
def IsUnsigned (w : List Char) : Prop :=
  ∃ whole fraction, whole ≠ [] ∧ whole.all Numeric.isDigit ∧ fraction.all Numeric.isDigit ∧
    (w = whole ∨ fraction ≠ [] ∧ w = whole ++ '.' :: fraction)

/-- What a quoted text holds, and the characters behind its opening quote, the closing quote
included. -/
inductive Quoted (quote : Char) : List Char → List Char → Prop where
  | close : Quoted quote [] [quote]
  | escaped {c : Char} {held raw : List Char} :
      Quoted quote held raw → Quoted quote (c :: held) ('\\' :: c :: raw)
  | plain {c : Char} {held raw : List Char} :
      c ≠ '\\' → c ≠ quote → Quoted quote held raw → Quoted quote (c :: held) (c :: raw)

/-- How a token is written, behind a token that can end an operand or behind one that cannot. -/
inductive Spells (operand : Bool) : Token → List Char → Prop where
  | number {w : List Char} : IsUnsigned w → Spells operand (.number (numberValue w)) w
  | negative {w : List Char} :
      operand = false → IsUnsigned w → Spells operand (.number (-numberValue w)) ('-' :: w)
  | name {c : Char} {w : List Char} :
      Text.isNameStart c → w.all Text.isNameChar →
      Spells operand (.name (String.ofList (c :: w))) (c :: w)
  | state {w : List Char} :
      w ≠ [] → w.all Text.isNameChar → Spells operand (.state (String.ofList w)) ('$' :: w)
  | text {quote : Char} {held raw : List Char} :
      quote = '\'' ∨ quote = '"' → Quoted quote held raw →
      Spells operand (.text (String.ofList held)) (quote :: raw)
  | mark {m : Mark} : Spells operand (.mark m) m.spelling

/-- What stands behind a token does not continue it. -/
def Token.EndsBefore (operand : Bool) (rest : List Char) : Token → Prop
  | .number _ => ∀ c ∈ rest.head?, Numeric.isDigit c = false
  | .name _ | .state _ => ∀ c ∈ rest.head?, Text.isNameChar c = false
  | .text _ => True
  | .mark m =>
    (∀ m' : Mark, m'.spelling <+: m.spelling ++ rest →
      m'.spelling.length ≤ m.spelling.length) ∧
    (m = .minus → operand = false → ∀ c ∈ rest.head?, Numeric.isDigit c = false)

/-! ### Numbers and names -/

/-- What stands behind the characters of a kind is of another kind. -/
theorem head?_dropWhile {p : Char → Bool} {cs : List Char} :
    ∀ c ∈ (cs.dropWhile p).head?, p c = false := by
  intro c hc
  have h := List.head?_dropWhile_not p cs
  rw [hc] at h
  exact h

/-- What is split off as a number is written like one: digits, and a point only with digits behind
it. -/
theorem isUnsigned_splitNumber {c : Char} {cs : List Char} (h : Numeric.isDigit c = true) :
    IsUnsigned (splitNumber (c :: cs)).1 := by
  have hwhole : (c :: cs).takeWhile Numeric.isDigit ≠ [] := by
    rw [List.takeWhile_cons_of_pos h]
    exact List.cons_ne_nil _ _
  have hall : ((c :: cs).takeWhile Numeric.isDigit).all Numeric.isDigit :=
    List.all_takeWhile
  unfold splitNumber
  dsimp only
  split
  · next d tail heq =>
    split
    · next hd =>
      refine ⟨_, d :: tail.takeWhile Numeric.isDigit, hwhole, hall, ?_, .inr ⟨nofun, rfl⟩⟩
      rw [List.all_cons, hd, Bool.true_and]
      exact List.all_takeWhile
    · exact ⟨_, [], hwhole, hall, rfl, .inl rfl⟩
  · exact ⟨_, [], hwhole, hall, rfl, .inl rfl⟩

theorem isDigit_splitNumber {cs : List Char} :
    ∀ c ∈ (splitNumber cs).2.head?, Numeric.isDigit c = false := by
  intro c hc
  unfold splitNumber at hc
  dsimp only at hc
  split at hc
  · next d tail heq =>
    split at hc
    · exact head?_dropWhile c hc
    · cases hc
      decide
  · exact head?_dropWhile c hc

/-! ### Quoted texts -/

/-- What is split off as a text is a quoted text: it ends at the first quote that is not escaped. -/
theorem quoted_of_splitText {quote : Char} {held raw : List Char}
    (h : splitText quote cs = some (held, raw, rest)) : Quoted quote held raw := by
  fun_induction splitText quote cs generalizing held raw rest with
  | case1 => cases h
  | case2 c rest' ih =>
    obtain ⟨⟨held', raw', rest''⟩, hrec, heq⟩ := Option.map_eq_some_iff.1 h
    cases heq
    exact .escaped (ih hrec)
  | case3 rest' =>
    cases h
    exact .close
  | case4 c rest' hescape hne ih =>
    obtain ⟨⟨held', raw', rest''⟩, hrec, heq⟩ := Option.map_eq_some_iff.1 h
    cases heq
    refine .plain ?_ hne (ih hrec)
    rintro rfl
    -- a backslash at the very end escapes nothing and closes nothing
    cases rest' with
    | nil => cases hrec
    | cons d rest' => exact hescape d rest' rfl rfl

/-- Conversely a quoted text is split off as a whole, whatever stands behind it. -/
theorem Quoted.splitText (h : Quoted quote held raw) (hquote : quote = '\'' ∨ quote = '"') :
    splitText quote (raw ++ rest) = some (held, raw, rest) := by
  have hbackslash : quote ≠ '\\' := by
    rcases hquote with rfl | rfl <;> decide
  induction h with
  | close =>
    rw [List.singleton_append, Expr.splitText, if_pos rfl]
    rintro c rest rfl
    exact absurd rfl hbackslash
  | escaped _ ih =>
    rw [List.cons_append, List.cons_append, Expr.splitText, ih]
    rfl
  | plain hc hne _ ih =>
    rw [List.cons_append, Expr.splitText, if_neg hne, ih]
    · rfl
    · rintro c rest rfl
      exact absurd rfl hc

/-- Without a backslash a text goes up to the next quote. -/
theorem Quoted.eq_append (h : Quoted quote held raw) (hraw : '\\' ∉ raw) :
    raw = held ++ [quote] ∧ quote ∉ held := by
  induction h with
  | close => exact ⟨rfl, List.not_mem_nil⟩
  | escaped => exact absurd List.mem_cons_self hraw
  | plain _ hne _ ih =>
    obtain ⟨rfl, hheld⟩ := ih (List.not_mem_of_not_mem_cons hraw)
    exact ⟨rfl, List.not_mem_cons_of_ne_of_not_mem hne.symm hheld⟩

theorem quoted_of_not_mem (hquote : quote ∉ held) (hbackslash : '\\' ∉ held) :
    Quoted quote held (held ++ [quote]) := by
  induction held with
  | nil => exact .close
  | cons c held ih =>
    exact .plain (List.ne_of_not_mem_cons hbackslash).symm (List.ne_of_not_mem_cons hquote).symm
      (ih (List.not_mem_of_not_mem_cons hquote) (List.not_mem_of_not_mem_cons hbackslash))

/-! ### Marks -/

/-- The mark at the front of a text is the longest one there. It is the first that fits in a list
where the longer marks come first. -/
theorem length_le_of_splitMark {cs : List Char} {m : { m : Mark // m.spelling <+: cs }}
    (h : splitMark cs = some m) (m' : Mark) (hm' : m'.spelling <+: cs) :
    m'.spelling.length ≤ m.1.spelling.length := by
  have hsorted : Mark.all.Pairwise fun a b => b.spelling.length ≤ a.spelling.length := by decide
  obtain ⟨before, a, behind, hall, ha, hbefore⟩ := List.findSome?_eq_some_iff.1 h
  split at ha
  · cases ha
    rw [hall] at hsorted
    have hmem : m' ∈ before ++ a :: behind := hall ▸ m'.mem_all
    rcases List.mem_append.1 hmem with hmem | hmem
    · have := hbefore m' hmem
      rw [dif_pos hm'] at this
      cases this
    · rcases List.mem_cons.1 hmem with rfl | hmem
      · exact Nat.le_refl _
      · exact (List.pairwise_cons.1 (List.pairwise_append.1 hsorted).2.1).1 m' hmem
  · cases ha

/-! ### What the scanner takes -/

/-- The characters that the scanner takes spell the token, and it takes all of them. In the order
of the scanner: numbers, negative numbers behind no operand, names, state variables, texts and
marks. -/
theorem spells_of_scan {s : Scan (c :: cs)} (h : scan operand c cs = .ok s) :
    Spells operand s.token s.slice ∧ s.token.EndsBefore operand s.rest := by
  unfold scan at h
  split at h
  · next hdigit =>
    cases h
    exact ⟨.number (isUnsigned_splitNumber hdigit), isDigit_splitNumber⟩
  split at h
  · next hminus =>
    cases h
    rw [Bool.and_eq_true, Bool.and_eq_true, beq_iff_eq, Bool.not_eq_true'] at hminus
    obtain ⟨⟨rfl, hoperand⟩, hdigit⟩ := hminus
    cases cs with
    | nil => cases hdigit
    | cons d ds =>
      exact ⟨.negative hoperand (isUnsigned_splitNumber hdigit), isDigit_splitNumber⟩
  split at h
  · next hstart =>
    cases h
    exact ⟨.name hstart List.all_takeWhile, head?_dropWhile⟩
  split at h
  · next hdollar =>
    subst hdollar
    dsimp only at h
    split at h
    · cases h
    · next hfilled =>
      cases h
      exact ⟨.state (fun hnil => hfilled (List.isEmpty_iff.2 hnil)) List.all_takeWhile,
        head?_dropWhile⟩
  split at h
  · next hquote =>
    split at h
    · cases h
    · next held raw rest hsplit =>
      cases h
      exact ⟨.text hquote (quoted_of_splitText hsplit), trivial⟩
  · next hdigit hminus _ _ _ =>
    split at h
    · cases h
    · next m hm hsplit =>
      cases h
      have hcs := List.prefix_iff_eq_append.1 hm
      refine ⟨.mark, ?_, ?_⟩
      · intro m' hm'
        rw [hcs] at hm'
        exact length_le_of_splitMark hsplit m' hm'
      · rintro rfl hoperand c' hc'
        obtain rfl : '-' = c := (List.cons_prefix_cons.1 hm).1
        have hc' : cs.head? = some c' := hc'
        rw [hoperand, hc'] at hminus
        exact Bool.eq_false_iff.2 hminus

end ProcedureChart.Expr
