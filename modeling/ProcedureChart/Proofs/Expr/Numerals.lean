import ProcedureChart.Proofs.Expr.Neighbours
import ProcedureChart.Proofs.Expr.Refinement
import ProcedureChart.Proofs.Expr.Scanning

/-!
# Numerals as expressions

Much that counts as a number when a text is used as one is none in the expression language. A
numeral that is more than digits, a fraction and a minus sign is no other expression with a value
there either (`isUnsigned_or_void`): the word `inf` is a name that nothing is bound to, `1e5` is a
number and a name beside each other, and `5.e3` is the field `e3` of a number.
-/

namespace ProcedureChart.Expr

variable {previous : Option Token} {position : Nat} {c : Char} {cs w : List Char} {t : Token}
  {ts us : List Token} {ls : List Lexeme} {rung : Rung} {e : Expr} {x : Float} {s : String}

/-! ### The first token -/

/-- The lexemes of a text that does not begin with a blank are the token that the scanner takes, and
those of the rest. -/
theorem exists_scan_of_lexemes (hc : Text.isBlank c = false)
    (h : lexemes previous position (c :: cs) = .ok ls) :
    ∃ s : Scan (c :: cs), scan (previous.any Token.endsOperand) c cs = .ok s ∧
      ∃ position' more, lexemes (some s.token) position' s.rest = .ok more ∧
        ls.map Lexeme.token = s.token :: more.map Lexeme.token := by
  rw [lexemes, if_neg (Bool.eq_false_iff.1 hc)] at h
  split at h
  · cases h
  · next s hs =>
    split at h
    · cases h
    · next more hmore =>
      cases h
      exact ⟨s, hs, _, more, hmore, rfl⟩

/-- A word that the scanner takes is the first token. -/
theorem Scans.of_lexemes {rest : List Char}
    (hw : Scans (previous.any Token.endsOperand) t w rest)
    (h : lexemes previous position (w ++ rest) = .ok ls) :
    ∃ position' more, lexemes (some t) position' rest = .ok more ∧
      ls.map Lexeme.token = t :: more.map Lexeme.token := by
  obtain ⟨c, cs, rfl, hblank, s, hs, htoken, hrest⟩ := hw
  obtain ⟨s', hs', hmore⟩ := exists_scan_of_lexemes hblank h
  obtain rfl := Except.ok.inj (hs.symm.trans hs')
  rwa [htoken, hrest] at hmore

theorem isBlank_of_isDigit (hc : Numeric.isDigit c) : Text.isBlank c = false :=
  isBlank_of_isWordChar (isWordChar_of_isDigit hc)

/-- A digit begins a number. -/
theorem lexemes_digit (hc : Numeric.isDigit c) (h : lexemes previous position (c :: cs) = .ok ls) :
    ∃ y previous' position' more,
      lexemes previous' position' (splitNumber (c :: cs)).2 = .ok more ∧
      ls.map Lexeme.token = .number y :: more.map Lexeme.token := by
  obtain ⟨s, hs, position', more, hmore, hls⟩ :=
    exists_scan_of_lexemes (isBlank_of_isDigit hc) h
  rw [scan, dif_pos hc] at hs
  cases hs
  exact ⟨_, _, position', more, hmore, hls⟩

/-- So does a minus sign in front of a digit, at the beginning of a text. -/
theorem lexemes_minus_digit (hc : Numeric.isDigit c)
    (h : lexemes none position ('-' :: c :: cs) = .ok ls) :
    ∃ y previous' position' more,
      lexemes previous' position' (splitNumber (c :: cs)).2 = .ok more ∧
      ls.map Lexeme.token = .number y :: more.map Lexeme.token := by
  obtain ⟨s, hs, position', more, hmore, hls⟩ := exists_scan_of_lexemes (by decide) h
  rw [scan, dif_neg (by decide), if_pos (by exact hc)] at hs
  cases hs
  exact ⟨_, _, position', more, hmore, hls⟩

/-- A letter begins a name. -/
theorem lexemes_letter (hc : Text.isNameStart c)
    (h : lexemes previous position (c :: cs) = .ok ls) :
    ∃ s us, ls.map Lexeme.token = .name s :: us := by
  have hblank : Text.isBlank c = false :=
    isBlank_of_isWordChar (isWordChar_of_isNameChar (Text.isNameChar_of_isNameStart hc))
  have hminus : (c == '-') = false := beq_false_of_ne (by rintro rfl; cases hc)
  obtain ⟨s, hs, position', more, -, hls⟩ := exists_scan_of_lexemes hblank h
  rw [scan, dif_neg (Bool.eq_false_iff.1 (not_isDigit_of_isNameStart hc)), hminus,
    if_neg (by exact Bool.false_ne_true), if_pos hc] at hs
  cases hs
  exact ⟨_, _, hls⟩

/-- A mark that is not continued is the first token. -/
theorem lexemes_mark {m : Mark} {c : Char} (hm : m.spelling = [c])
    (hfirst : ∀ m' : Mark, m'.spelling.head? = m.spelling.head? →
      m'.spelling.length ≤ m.spelling.length)
    (hminus : m = .minus → ∀ d ∈ cs.head?, Numeric.isDigit d = false)
    (h : lexemes previous position (c :: cs) = .ok ls) :
    ∃ position' more, lexemes (some (.mark m)) position' cs = .ok more ∧
      ls.map Lexeme.token = .mark m :: more.map Lexeme.token := by
  have hscans : Scans (previous.any Token.endsOperand) (.mark m) m.spelling cs :=
    scans_mark (Mark.longest_of_head hfirst) fun heq _ => hminus heq
  rw [hm] at hscans
  exact hscans.of_lexemes h

theorem lexemes_point (h : lexemes previous position ('.' :: cs) = .ok ls) :
    ∃ us, ls.map Lexeme.token = .mark .dot :: us := by
  obtain ⟨-, more, -, hls⟩ := lexemes_mark (m := .dot) rfl (fun m' => by cases m' <;> decide)
    nofun h
  exact ⟨_, hls⟩

/-! ### Tokens without a value -/

/-- Whether tokens are no expression that has a value where no name has one. -/
def Void (ts : List Token) : Prop := ∀ e, Phrase .conditional ts e → ∀ v, e.eval {} ≠ .ok v

/-- No phrase has odd tokens. -/
theorem not_phrase_of_odd (hodd : Odd ts) : ¬Phrase rung ts e := by
  intro h
  have hfirst := h.joined.first
  have hchain := h.joined.chain
  cases hodd with
  | sign | point => cases hfirst _ rfl
  | signPoint => exact ((List.isChain_cons_cons.1 hchain).1 : _ ∧ _).2 rfl
  | @exponent x s => exact (List.isChain_cons_cons.1 hchain).1 s rfl

theorem Odd.void (h : Odd ts) : Void ts := fun _ he => absurd he (not_phrase_of_odd h)

/-- What stands in front of a mark, in tokens that begin with a number and a point, is the number if
that mark is the point, or begins with both as well. -/
theorem cases_of_append {m : Mark} {vs : List Token} (hne : ts ≠ [])
    (h : ts ++ .mark m :: vs = .number x :: .mark .dot :: us) :
    ts = [.number x] ∧ m = .dot ∨ ∃ us', ts = .number x :: .mark .dot :: us' := by
  obtain ⟨t, ts, rfl⟩ := List.exists_cons_of_ne_nil hne
  obtain ⟨rfl, hrest⟩ := List.cons.inj h
  cases ts with
  | nil => exact .inl ⟨rfl, Token.mark.inj (List.cons.inj hrest).1⟩
  | cons t ts =>
    obtain ⟨ht, -⟩ := List.cons.inj hrest
    exact .inr ⟨ts, by rw [ht]⟩

/-- A number has no fields, so a phrase that begins with one and a point has no value. What else the
phrase has cannot help, since its first operand is evaluated first. -/
theorem eval_of_point (c : Context) : ∀ {rung : Rung} {ts : List Token} {e : Expr},
    Phrase rung ts e → ∀ {us : List Token}, ts = .number x :: .mark .dot :: us →
    ∃ error, e.eval c = .error error
  | _, _, _, .fieldless h, _, hts | _, _, _, .unsigned h, _, hts | _, _, _, .single h, _, hts
  | _, _, _, .unconditional h, _, hts => eval_of_point c h hts
  | _, _, _, .field part h, _, hts => by
    rw [eval_field]
    rcases cases_of_append h.ne_nil hts with ⟨hx, -⟩ | ⟨us', hus⟩
    · obtain rfl := (hx ▸ h).to_conditional.unique (.to_conditional (.number x))
      exact ⟨.noField part "number", rfl⟩
    · obtain ⟨error, herror⟩ := eval_of_point c h hus
      rw [herror]
      exact ⟨error, rfl⟩
  | _, _, _, .binary op hleft _, _, hts => by
    rcases cases_of_append hleft.ne_nil hts with ⟨-, hdot⟩ | ⟨us', hus⟩
    · exact absurd hdot (Operator.mark_ne rfl)
    · obtain ⟨error, herror⟩ := eval_of_point c hleft hus
      rw [eval_binary, herror]
      exact ⟨error, rfl⟩
  | _, _, _, .conditional hcondition _ _, _, hts => by
    rcases cases_of_append hcondition.ne_nil hts with ⟨-, hdot⟩ | ⟨us', hus⟩
    · cases hdot
    · obtain ⟨error, herror⟩ := eval_of_point c hcondition hus
      rw [eval_conditional, herror]
      exact ⟨error, rfl⟩

/-- Behind a number without a value stand a point or a name. -/
theorem void_of_number (ht : t = .mark .dot ∨ ∃ s, t = .name s) : Void (.number x :: t :: ts) := by
  rcases ht with rfl | ⟨s, rfl⟩
  · intro e he v hv
    obtain ⟨error, herror⟩ := eval_of_point {} he rfl
    rw [herror] at hv
    cases hv
  · exact Odd.exponent.void

/-- Where no name has a value, a name has none, and the opposite of it has none either. -/
theorem void_name (h : keyword? s = none) :
    Void [.name s] ∧ Void [.mark .minus, .name s] := by
  have hname : Phrase .primary [.name s] (.name s) := .name h
  have hlookup : ({} : Context).lookup s = none := by
    rw [Context.lookup, ite_self]
    rfl
  have heval : eval {} (.name s) = .error (.unknownName s) := by rw [eval, hlookup]
  refine ⟨fun e he v hv => ?_, fun e he v hv => ?_⟩
  · rw [he.unique hname.to_conditional, heval] at hv
    cases hv
  · have hopposite : Phrase .unary [.mark .minus, .name s] (.opposite (.name s)) :=
      .opposite (hname.of_primary _)
    rw [he.unique hopposite.to_conditional, eval_opposite, heval] at hv
    cases hv

/-! ### Numerals -/

/-- The words for infinity and NaN are no keywords. -/
theorem keyword?_of_readWord (h : Numeric.readWord cs = some x) :
    keyword? (String.ofList cs) = none := by
  have hne {word : String} (hword : Numeric.readWord word.toList = none) :
      String.ofList cs ≠ word := by
    rintro rfl
    rw [String.toList_ofList, h] at hword
    cases hword
  unfold keyword?
  split
  · next heq => exact absurd heq (hne rfl)
  · next heq => exact absurd heq (hne rfl)
  · next heq => exact absurd heq (hne rfl)
  · rfl

/-- Behind the digits and the fraction of a numeral stands nothing, a point or a letter. The letter
is that of an exponent, which begins a name for the lexer. -/
theorem lexemes_behind_digits (hc : Numeric.isDigit c)
    (hread : Numeric.readUnsigned (c :: cs) = some x)
    (h : lexemes previous position (splitNumber (c :: cs)).2 = .ok ls) :
    IsUnsigned (c :: cs) ∨ ∃ t us, ls.map Lexeme.token = t :: us ∧
      (t = .mark .dot ∨ ∃ s, t = .name s) := by
  have hw : IsUnsigned (splitNumber (c :: cs)).1 := isUnsigned_splitNumber hc
  have hstop : ∀ d ∈ (splitNumber (c :: cs)).2.head?, Numeric.isDigit d = false :=
    isDigit_splitNumber
  have hsplit := splitNumber_append (c :: cs)
  generalize (splitNumber (c :: cs)).1 = w at hw hsplit
  generalize (splitNumber (c :: cs)).2 = rest at hstop hsplit h
  rw [← hsplit] at hread ⊢
  cases rest with
  | nil =>
    rw [List.append_nil]
    exact .inl hw
  | cons d rest =>
    by_cases hpoint : d = '.'
    · subst hpoint
      obtain ⟨us, hls⟩ := lexemes_point h
      exact .inr ⟨_, us, hls, .inl rfl⟩
    · have hexponent := exponent_of_readUnsigned hw (hstop d rfl) hpoint hread
      have hstart : Text.isNameStart d := by rcases hexponent with rfl | rfl <;> decide
      obtain ⟨s, us, hls⟩ := lexemes_letter hstart h
      exact .inr ⟨_, us, hls, .inr ⟨s, rfl⟩⟩

/-- The tokens of a numeral that begin with a number have no value, unless it ends behind its digits
and its fraction. -/
theorem isUnsigned_or_void_of_digits (hc : Numeric.isDigit c)
    (hread : Numeric.readUnsigned (c :: cs) = some x)
    (h : lexemes previous position (splitNumber (c :: cs)).2 = .ok ls) {y : Float}
    (hts : ts = .number y :: ls.map Lexeme.token) : IsUnsigned (c :: cs) ∨ Void ts := by
  rcases lexemes_behind_digits hc hread h with hunsigned | ⟨t, us, hls, ht⟩
  · exact .inl hunsigned
  · rw [hts, hls]
    exact .inr (void_of_number ht)

/-- A word for infinity or NaN is a single name. -/
theorem lexemes_word (hread : Numeric.readWord cs = some x)
    (h : lexemes previous position cs = .ok ls) :
    ls.map Lexeme.token = [.name (String.ofList cs)] := by
  obtain ⟨c, cs, rfl, hall⟩ := isNameStart_of_readWord hread
  obtain ⟨hc, hcs⟩ := List.forall_mem_cons.1 hall
  have hscans : Scans (previous.any Token.endsOperand) (.name (String.ofList (c :: cs)))
      (c :: cs) [] :=
    scans_name hc (List.all_eq_true.2 fun c hc => Text.isNameChar_of_isNameStart (hcs c hc))
      stops_nil
  rw [← List.append_nil (c :: cs)] at h
  obtain ⟨position', more, hmore, hls⟩ := hscans.of_lexemes h
  rw [lexemes] at hmore
  cases hmore
  exact hls

/-- A numeral without a sign is digits with an optional fraction, or has no value. -/
theorem isUnsigned_or_void_of_unsigned (h : lexemes none position cs = .ok ls)
    (hread : (Numeric.readUnsigned cs).or (Numeric.readWord cs) = some x) :
    IsUnsigned cs ∨ Void (ls.map Lexeme.token) := by
  rcases Option.or_eq_some_iff.1 hread with hread | ⟨-, hread⟩
  · obtain ⟨c, cs, rfl, hc | rfl⟩ := head_of_readUnsigned hread
    · obtain ⟨y, previous, position', more, hmore, hls⟩ := lexemes_digit hc h
      exact isUnsigned_or_void_of_digits hc hread hmore hls
    · obtain ⟨us, hls⟩ := lexemes_point h
      rw [hls]
      exact .inr Odd.point.void
  · rw [lexemes_word hread h]
    exact .inr (void_name (keyword?_of_readWord hread)).1

/-- So is what stands behind the minus sign of a numeral. The lexer takes the sign and the digits
for one number, but in front of a point or a letter the sign is a mark. -/
theorem isUnsigned_or_void_of_minus (h : lexemes none position ('-' :: cs) = .ok ls)
    (hread : (Numeric.readUnsigned cs).or (Numeric.readWord cs) = some x) :
    IsUnsigned cs ∨ Void (ls.map Lexeme.token) := by
  have hminus (hdigit : ∀ d ∈ cs.head?, Numeric.isDigit d = false) :=
    lexemes_mark (m := .minus) rfl (fun m' => by cases m' <;> decide) (fun _ => hdigit) h
  rcases Option.or_eq_some_iff.1 hread with hread | ⟨-, hread⟩
  · obtain ⟨c, cs, rfl, hc | rfl⟩ := head_of_readUnsigned hread
    · obtain ⟨y, previous, position', more, hmore, hls⟩ := lexemes_minus_digit hc h
      exact isUnsigned_or_void_of_digits hc hread hmore hls
    · obtain ⟨position', more, hmore, hls⟩ := hminus (by rintro _ ⟨⟩; decide)
      obtain ⟨us, hus⟩ := lexemes_point hmore
      rw [hls, hus]
      exact .inr Odd.signPoint.void
  · have hletter : ∀ d ∈ cs.head?, Numeric.isDigit d = false := by
      obtain ⟨c, cs, rfl, hall⟩ := isNameStart_of_readWord hread
      rintro _ ⟨⟩
      exact not_isDigit_of_isNameStart (hall c List.mem_cons_self)
    obtain ⟨position', more, hmore, hls⟩ := hminus hletter
    rw [hls, lexemes_word hread hmore]
    exact .inr (void_name (keyword?_of_readWord hread)).2

/-- **Numerals as expressions**: digits with an optional fraction and an optional minus sign, or no
expression that has a value where no name has one. The reader of numbers takes a plus sign, an
exponent, a missing digit beside the point, and words for infinity and NaN, all of which the scanner
reads as something else. -/
theorem isUnsigned_or_void (h : lexemes none position cs = .ok ls)
    (hread : Numeric.readNumeral cs = some x) :
    (IsUnsigned cs ∨ ∃ w, cs = '-' :: w ∧ IsUnsigned w) ∨ Void (ls.map Lexeme.token) := by
  unfold Numeric.readNumeral at hread
  split at hread
  · next rest =>
    obtain ⟨y, hy, -⟩ := Option.map_eq_some_iff.1 hread
    exact (isUnsigned_or_void_of_minus h hy).imp_left fun hrest => .inr ⟨rest, rfl, hrest⟩
  · obtain ⟨-, more, -, hls⟩ := lexemes_mark (m := .plus) rfl (fun m' => by cases m' <;> decide)
      nofun h
    rw [hls]
    exact .inr Odd.sign.void
  · exact (isUnsigned_or_void_of_unsigned h hread).imp_left .inl

end ProcedureChart.Expr
