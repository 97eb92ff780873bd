import Mathlib.Data.List.Basic
import ProcedureChart.Proofs.Expr.Words

/-!
# Names, texts and numerals

The tokens of a text that is a single operand by its looks. A plain name and a text in quotes are
one token. So is a numeral, unless it is written in a way that the expression language does not
know; then its tokens do not stand in any phrase (`Odd`).
-/

namespace ProcedureChart.Expr

variable {operand : Bool} {t : Token} {c : Char} {cs w r : List Char} {ts : List Token}

/-! ### The first character of a token -/

/-- What holds of the ASCII characters, one by one. -/
theorem forall_ascii {p : Char → Prop} (h : ∀ n < 128, p (Char.ofNat n)) (hc : c.toNat < 128) :
    p c := by
  rw [← Char.ofNat_toNat c]
  exact h _ hc

theorem toNat_lt_of_isDigit (h : Numeric.isDigit c) : c.toNat < 128 := by
  rw [Numeric.isDigit, Bool.and_eq_true, decide_eq_true_iff, decide_eq_true_iff] at h
  exact Nat.lt_of_le_of_lt h.2 (by decide)

/-- Digits begin no name, no text and no mark. -/
theorem head_of_isDigit (h : Numeric.isDigit c) :
    Text.isNameStart c = false ∧ c ∉ ['-', '$', '\'', '"'] :=
  forall_ascii (p := fun c => Numeric.isDigit c →
    Text.isNameStart c = false ∧ c ∉ ['-', '$', '\'', '"']) (by decide) (toNat_lt_of_isDigit h) h

/-- A token that begins with a digit is a number, and it is not followed by another digit or a
point. No other kind of token begins so. -/
theorem Takes.of_digit (h : Takes operand t (c :: w) r) (hc : Numeric.isDigit c) :
    t = .number (numberValue (c :: w)) ∧ IsUnsigned (c :: w) ∧
      ∀ c ∈ r.head?, Numeric.isDigit c = false ∧ c ≠ '.' := by
  obtain ⟨hstart, hmem⟩ := head_of_isDigit hc
  generalize hw : c :: w = w' at h
  cases h with
  | number hunsigned hr => exact ⟨rfl, hunsigned, hr⟩
  | negative => exact absurd (by rw [(List.cons.inj hw).1]; decide) hmem
  | name hname =>
    rw [← (List.cons.inj hw).1, hstart] at hname
    cases hname
  | state => exact absurd (by rw [(List.cons.inj hw).1]; decide) hmem
  | text hquote =>
    rw [← (List.cons.inj hw).1] at hquote
    exact absurd (by rcases hquote with rfl | rfl <;> decide) hmem
  | @mark m =>
    have hdigit := (m.head_spelling c (hw ▸ rfl)).2.1
    rw [hc] at hdigit
    cases hdigit

/-- A token that begins like a name is a name, and takes all characters that a name can have. -/
theorem Takes.of_nameStart (h : Takes operand t (c :: w) r) (hc : Text.isNameStart c) :
    t = .name (String.ofList (c :: w)) ∧ w.all Text.isNameChar ∧
      (∀ c ∈ r.head?, Text.isNameChar c = false) ∧ Numeric.readWord (c :: w) = none := by
  generalize hw : c :: w = w' at h
  cases h with
  | number hunsigned hr =>
    obtain ⟨d, w', rfl, hd⟩ := hunsigned.cons
    rw [(List.cons.inj hw).1, (head_of_isDigit hd).1] at hc
    cases hc
  | negative =>
    rw [(List.cons.inj hw).1] at hc
    cases hc
  | name hname hall hr hword =>
    obtain ⟨rfl, rfl⟩ := List.cons.inj hw
    exact ⟨rfl, hall, hr, hword⟩
  | state =>
    rw [(List.cons.inj hw).1] at hc
    cases hc
  | text hquote =>
    rw [← (List.cons.inj hw).1] at hquote
    rcases hquote with rfl | rfl <;> cases hc
  | @mark m =>
    have hstart := (m.head_spelling c (hw ▸ rfl)).2.2.1
    rw [hc] at hstart
    cases hstart

/-- A token that begins with a quote is a text, and ends with the same quote. -/
theorem Takes.of_quote (h : Takes operand t (c :: w) r) (hc : c = '\'' ∨ c = '"') :
    ∃ held, t = .text (String.ofList held) ∧ w = held ++ [c] := by
  generalize hw : c :: w = w' at h
  cases h with
  | number hunsigned hr =>
    obtain ⟨d, w', rfl, hd⟩ := hunsigned.cons
    rw [← (List.cons.inj hw).1] at hd
    exact absurd (by rcases hc with rfl | rfl <;> decide) (head_of_isDigit hd).2
  | negative =>
    rw [(List.cons.inj hw).1] at hc
    exact absurd hc (by decide)
  | name hname =>
    rw [← (List.cons.inj hw).1] at hname
    rcases hc with rfl | rfl <;> cases hname
  | state =>
    rw [(List.cons.inj hw).1] at hc
    exact absurd hc (by decide)
  | @text _ held =>
    obtain ⟨rfl, rfl⟩ := List.cons.inj hw
    exact ⟨held, rfl, rfl⟩
  | @mark m =>
    obtain ⟨-, -, -, -, hsingle, hdouble, -⟩ := m.head_spelling c (hw ▸ rfl)
    exact absurd hc (not_or.2 ⟨hsingle, hdouble⟩)

/-- A token that begins with a minus sign before a digit is a negative number, where a number can
begin. -/
theorem Takes.of_minus (h : Takes false t ('-' :: w) r)
    (hdigit : ∃ d ∈ (w ++ r).head?, Numeric.isDigit d) :
    t = .number (-numberValue w) ∧ IsUnsigned w ∧
      ∀ c ∈ r.head?, Numeric.isDigit c = false ∧ c ≠ '.' := by
  generalize hw : '-' :: w = w' at h
  cases h with
  | number hunsigned hr =>
    obtain ⟨d, w', rfl, hd⟩ := hunsigned.cons
    rw [← (List.cons.inj hw).1] at hd
    cases hd
  | negative _ hunsigned hr =>
    obtain ⟨-, rfl⟩ := List.cons.inj hw
    exact ⟨rfl, hunsigned, hr⟩
  | name hname =>
    rw [← (List.cons.inj hw).1] at hname
    cases hname
  | state => cases hw
  | text hquote =>
    rw [← (List.cons.inj hw).1] at hquote
    exact absurd hquote (by decide)
  | @mark m _ _ hminus =>
    obtain rfl : m = .minus := (m.head_spelling '-' (hw ▸ rfl)).2.2.2.2.2.2 rfl
    obtain rfl : w = [] := (List.cons.inj hw).2
    obtain ⟨d, hd, hdigit⟩ := hdigit
    rw [hminus rfl rfl d hd] at hdigit
    cases hdigit

/-! ### Cutting a text between tokens -/

/-- Whether a character is a blank or stands in names, numerals and parentheses. -/
def isCalm (c : Char) : Bool :=
  Text.isBlank c || isWordChar c || c == '(' || c == ')' || c == '+'

/-- A token that begins with a calm character has no other characters. -/
theorem Shape.all_isCalm (h : Shape t (c :: w)) (hc : isCalm c) : (c :: w).all isCalm := by
  generalize hw : c :: w = w' at h
  cases h with
  | word _ _ _ hall =>
    refine List.all_eq_true.2 fun c' hc' => ?_
    rw [isCalm, List.all_eq_true.1 hall c' hc', Bool.or_true]
    rfl
  | text hquote =>
    rw [← (List.cons.inj hw).1] at hquote
    rcases hquote with rfl | rfl <;> cases hc
  | @mark m =>
    have hmark : m.spelling.head?.any isCalm → m.spelling.all isCalm := by
      cases m <;> decide
    exact hmark (hw ▸ hc)

/-- In front of a character that is not calm, a calm text has whole tokens. No token that begins in
the text reaches the character, so the tokens can be divided there. -/
theorem Spelled.split {l : List Char} (h : Spelled operand (l ++ c :: r) ts)
    (hl : l.all isCalm) (hc : isCalm c = false) :
    ∃ ls rs operand', ts = ls ++ rs ∧ Spelled operand l ls ∧ Spelled operand' (c :: r) rs := by
  generalize hwhole : l ++ c :: r = whole at h
  induction h generalizing l with
  | nil => exact absurd hwhole (List.append_ne_nil_of_right_ne_nil _ (List.cons_ne_nil _ _))
  | @blank operand b cs ts hb hrest ih =>
    cases l with
    | nil =>
      refine ⟨[], ts, operand, rfl, .nil, ?_⟩
      rw [List.nil_append] at hwhole
      rw [hwhole]
      exact .blank hb hrest
    | cons b' l =>
      obtain ⟨rfl, hcs⟩ := List.cons.inj hwhole
      rw [List.all_cons, Bool.and_eq_true] at hl
      obtain ⟨ls, rs, operand', rfl, hls, hrs⟩ := ih hl.2 hcs
      exact ⟨ls, rs, operand', rfl, .blank hb hls, hrs⟩
  | @token operand t w r' ts hw ht hr ih =>
    cases l with
    | nil =>
      refine ⟨[], t :: ts, operand, rfl, .nil, ?_⟩
      rw [List.nil_append] at hwhole
      rw [hwhole]
      exact .token hw ht hr
    | cons b l =>
      obtain ⟨b', w, rfl⟩ := List.exists_cons_of_ne_nil ht.shape.ne_nil
      obtain ⟨rfl, hcs⟩ := List.cons.inj hwhole
      rw [List.all_cons, Bool.and_eq_true] at hl
      rcases List.append_eq_append_iff.1 hcs with ⟨more, hw', hrest⟩ | ⟨more, rfl, rfl⟩
      · cases more with
        | nil =>
          obtain rfl : w = l := hw'.trans (List.append_nil l)
          obtain rfl : c :: r = r' := hrest
          have ht' := ht.mono List.nil_prefix
          refine ⟨[t], ts, t.endsOperand, rfl, ?_, hr⟩
          rw [← List.append_nil (b :: w)]
          exact .token hw ht' .nil
        | cons c' more =>
          -- the token would go on behind the calm text
          obtain ⟨rfl, -⟩ := List.cons.inj hrest
          have hmem : c ∈ b :: w :=
            hw' ▸ List.mem_cons_of_mem _ (List.mem_append_right _ List.mem_cons_self)
          rw [List.all_eq_true.1 (ht.shape.all_isCalm hl.1) c hmem] at hc
          cases hc
      · rw [List.all_append, Bool.and_eq_true] at hl
        obtain ⟨ls, rs, operand', rfl, hls, hrs⟩ := ih hl.2.2 rfl
        exact ⟨t :: ls, rs, operand', rfl,
          .token hw (ht.mono (List.prefix_append _ _)) hls, hrs⟩

/-- Around a mark that is not calm and behind a calm text, both sides have whole tokens. The mark is
the longest one there, so it is the token that the text has in this place. -/
theorem Spelled.split_mark {l : List Char} {m : Mark}
    (h : Spelled operand (l ++ (m.spelling ++ r)) ts)
    (hl : l.all isCalm) (hm : m.spelling.head?.any isCalm = false)
    (hlongest : ∀ m' : Mark, m'.spelling <+: m.spelling ++ r →
      m'.spelling.length ≤ m.spelling.length) :
    ∃ ls rs, ts = ls ++ .mark m :: rs ∧ Spelled operand l ls ∧ Spelled false r rs := by
  obtain ⟨c, cs, hspelling⟩ := List.exists_cons_of_ne_nil m.spelling_ne_nil
  have hc : isCalm c = false := by
    rw [hspelling] at hm
    exact hm
  have hflat : m ≠ .minus ∧ (Token.mark m).endsOperand = false := by
    revert hm
    cases m <;> decide
  rw [hspelling, List.cons_append] at h
  obtain ⟨ls, rs, operand', rfl, hls, hrs⟩ := h.split hl hc
  rw [← List.cons_append, ← hspelling] at hrs
  obtain ⟨rs, rfl, hright⟩ := hrs.of_mark hlongest fun hminus => absurd hminus hflat.1
  rw [hflat.2] at hright
  exact ⟨ls, rs, rfl, hls, hright⟩

/-! ### Names and texts -/

/-- What is written like a name is a single name. It is none of the words for infinity and NaN,
since those are spelled by no token. -/
theorem spelled_name (h : Spelled operand (c :: cs) ts) (hc : Text.isNameStart c)
    (hcs : cs.all Text.isNameChar) :
    ts = [.name (String.ofList (c :: cs))] ∧ Numeric.readWord (c :: cs) = none := by
  rcases h.cons_cases with ⟨hblank, -⟩ | ⟨-, t, w, r, us, rfl, ht, hr, rfl⟩
  · have hword := isWordChar_of_isNameChar (Text.isNameChar_of_isNameStart hc)
    rw [isWordChar_of_isBlank hblank] at hword
    cases hword
  · obtain ⟨rfl, -, hstop, hword⟩ := ht.of_nameStart hc
    obtain rfl : r = [] := by
      cases r with
      | nil => rfl
      | cons c r =>
        rw [List.all_append, List.all_cons, hstop c rfl, Bool.false_and, Bool.and_false] at hcs
        cases hcs
    rw [List.append_nil, hr.eq_nil]
    exact ⟨rfl, hword⟩

/-- What is written like a text is a single text. -/
theorem spelled_text {held : List Char} (h : Spelled operand (c :: (held ++ [c])) ts)
    (hc : c = '\'' ∨ c = '"') (hheld : c ∉ held) : ts = [.text (String.ofList held)] := by
  rcases h.cons_cases with ⟨hblank, -⟩ | ⟨-, t, w, r, us, hrest, ht, hr, rfl⟩
  · rcases hc with rfl | rfl <;> cases hblank
  · obtain ⟨held', rfl, rfl⟩ := ht.of_quote hc
    rw [List.append_assoc, List.singleton_append] at hrest
    obtain ⟨rfl, -, rfl⟩ := (List.append_cons_inj_of_notMem hheld List.not_mem_nil).1 hrest
    rw [hr.eq_nil]

/-! ### Numerals -/

/-- Tokens that stand in no phrase behind an operator. -/
inductive Odd : List Token → Prop where
  | sign {ts : List Token} : Odd (.mark .plus :: ts)
  | point {ts : List Token} : Odd (.mark .dot :: ts)
  | signPoint {ts : List Token} : Odd (.mark .minus :: .mark .dot :: ts)
  | exponent {x : Float} {s : String} {ts : List Token} : Odd (.number x :: .name s :: ts)

theorem splitDigits {ds : List Char} (hds : ds.all Numeric.isDigit)
    (hc : Numeric.isDigit c = false) :
    (ds ++ c :: r).takeWhile Numeric.isDigit = ds ∧
      (ds ++ c :: r).dropWhile Numeric.isDigit = c :: r := by
  rw [List.takeWhile_append_of_pos (List.all_eq_true.1 hds),
    List.dropWhile_append_of_pos (List.all_eq_true.1 hds),
    List.takeWhile_cons_of_neg (Bool.eq_false_iff.1 hc),
    List.dropWhile_cons_of_neg (Bool.eq_false_iff.1 hc), List.append_nil]
  exact ⟨rfl, rfl⟩

theorem head_of_readExponent {k : Int} (h : Numeric.readExponent (c :: r) = some k) :
    c = 'e' ∨ c = 'E' := by
  by_contra hne
  obtain ⟨hlower, hupper⟩ := not_or.1 hne
  unfold Numeric.readExponent at h
  dsimp only at h
  rw [beq_false_of_ne hlower, beq_false_of_ne hupper] at h
  cases h

theorem Odd.append (h : Odd ts) (us : List Token) : Odd (ts ++ us) := by
  cases h with
  | sign => exact .sign
  | point => exact .point
  | signPoint => exact .signPoint
  | exponent => exact .exponent

/-- What stands behind the digits of a numeral is an exponent: digits and a point have been taken as
far as they go. -/
theorem exponent_of_readUnsigned {x : Float} (hw : IsUnsigned w) (hc : Numeric.isDigit c = false)
    (hpoint : c ≠ '.') (h : Numeric.readUnsigned (w ++ c :: r) = some x) : c = 'e' ∨ c = 'E' := by
  obtain ⟨whole, fraction, -, hwhole, hfraction, rfl | ⟨-, rfl⟩⟩ := hw
  · obtain ⟨htake, hdrop⟩ := splitDigits (r := r) hwhole hc
    rw [Numeric.readUnsigned, htake, hdrop] at h
    split at h
    next fraction rest heq =>
    split at heq
    · next hcons => exact absurd (List.cons.inj hcons).1 hpoint
    · cases heq
      split at h
      · cases h
      · obtain ⟨k, hk, -⟩ := Option.map_eq_some_iff.1 h
        exact head_of_readExponent hk
  · rw [List.append_assoc, List.cons_append] at h
    obtain ⟨htake, hdrop⟩ := splitDigits (r := fraction ++ c :: r) hwhole
      (by decide : Numeric.isDigit '.' = false)
    obtain ⟨htake', hdrop'⟩ := splitDigits (r := r) hfraction hc
    rw [Numeric.readUnsigned, htake, hdrop] at h
    simp only [htake', hdrop'] at h
    split at h
    · cases h
    · obtain ⟨k, hk, -⟩ := Option.map_eq_some_iff.1 h
      exact head_of_readExponent hk

/-- Behind the digits of a numeral stands nothing, or an exponent, which is written like a name. In
the second case the numeral is no single token. -/
theorem spelled_exponent {x : Float} (h : Spelled operand r ts) (hw : IsUnsigned w)
    (hstop : ∀ c ∈ r.head?, Numeric.isDigit c = false ∧ c ≠ '.')
    (hread : Numeric.readUnsigned (w ++ r) = some x) :
    (ts = [] ∧ numberValue w = x) ∨ ∃ s us, ts = .name s :: us := by
  cases r with
  | nil =>
    rw [List.append_nil] at hread
    rw [numberValue, hread]
    exact .inl ⟨h.eq_nil, rfl⟩
  | cons c r =>
    obtain ⟨hdigit, hpoint⟩ := hstop c rfl
    have hexponent := exponent_of_readUnsigned hw hdigit hpoint hread
    have hstart : Text.isNameStart c := by rcases hexponent with rfl | rfl <;> decide
    rcases h.cons_cases with ⟨hblank, -⟩ | ⟨-, t, w, r, us, rfl, ht, -, rfl⟩
    · rcases hexponent with rfl | rfl <;> cases hblank
    · obtain ⟨rfl, -⟩ := ht.of_nameStart hstart
      exact .inr ⟨_, us, rfl⟩

/-- A numeral that begins with a digit is a single number, or has an exponent. -/
theorem spelled_digits {x : Float} (h : Spelled operand (c :: cs) ts) (hc : Numeric.isDigit c)
    (hread : Numeric.readUnsigned (c :: cs) = some x) : ts = [.number x] ∨ Odd ts := by
  rcases h.cons_cases with ⟨hblank, -⟩ | ⟨-, t, w, r, us, rfl, ht, hr, rfl⟩
  · have hword := isWordChar_of_isNameChar (isNameChar_of_isDigit hc)
    rw [isWordChar_of_isBlank hblank] at hword
    cases hword
  · obtain ⟨rfl, hunsigned, hstop⟩ := ht.of_digit hc
    rcases spelled_exponent hr hunsigned hstop hread with ⟨rfl, rfl⟩ | ⟨s, us, rfl⟩
    · exact .inl rfl
    · exact .inr .exponent

/-- A numeral behind a minus sign that begins with a digit is a single number, or has an
exponent. -/
theorem spelled_negative {x : Float} (h : Spelled false ('-' :: c :: cs) ts)
    (hc : Numeric.isDigit c) (hread : Numeric.readUnsigned (c :: cs) = some x) :
    ts = [.number (-x)] ∨ Odd ts := by
  rcases h.cons_cases with ⟨hblank, -⟩ | ⟨-, t, w, r, us, hcs, ht, hr, rfl⟩
  · cases hblank
  · obtain ⟨rfl, hunsigned, hstop⟩ := ht.of_minus ⟨c, by rw [← hcs]; rfl, hc⟩
    rw [hcs] at hread
    rcases spelled_exponent hr hunsigned hstop hread with ⟨rfl, rfl⟩ | ⟨s, us, rfl⟩
    · exact .inl rfl
    · exact .inr .exponent

/-- A numeral begins with a digit or a point. -/
theorem head_of_readUnsigned {x : Float} (h : Numeric.readUnsigned cs = some x) :
    ∃ c cs', cs = c :: cs' ∧ (Numeric.isDigit c ∨ c = '.') := by
  cases cs with
  | nil => cases h
  | cons c cs =>
    refine ⟨c, cs, rfl, ?_⟩
    by_contra hne
    obtain ⟨hdigit, hpoint⟩ := not_or.1 hne
    rw [Numeric.readUnsigned, List.takeWhile_cons_of_neg hdigit, List.dropWhile_cons_of_neg hdigit]
      at h
    split at h
    next fraction rest heq =>
    split at heq
    · next hcons => exact hpoint (List.cons.inj hcons).1
    · cases heq
      cases h

/-- A point begins no number. -/
theorem spelled_point (h : Spelled operand ('.' :: cs) ts) : ∃ us, ts = .mark .dot :: us := by
  obtain ⟨us, rfl, -⟩ := Spelled.of_mark (m := .dot) h
    (Mark.longest_of_head fun m' => by cases m' <;> decide) nofun
  exact ⟨us, rfl⟩

theorem isNameStart_of_toLower (h : c.toLower.toNat < 128 ∧ c.toLower.isAlpha) :
    Text.isNameStart c := by
  have hc : c.toNat < 128 := by
    have hlower := h.1
    unfold Char.toLower at hlower
    split at hlower
    · next hupper => exact Nat.lt_of_le_of_lt hupper.2 (by decide)
    · exact hlower
  exact forall_ascii (p := fun c => c.toLower.isAlpha → Text.isNameStart c) (by decide) hc h.2

/-- The words for infinity and NaN are written like names, in capitals and small letters alike. -/
theorem isNameStart_of_readWord {x : Float} (hread : Numeric.readWord cs = some x) :
    ∃ c cs', cs = c :: cs' ∧ ∀ c ∈ cs, Text.isNameStart c := by
  have hlower : ∃ word ∈ ["inf", "infinity", "nan"], cs.map Char.toLower = word.toList := by
    unfold Numeric.readWord at hread
    split at hread
    · next hword => exact ⟨_, .head _, String.toList_ofList.symm.trans (congrArg _ hword)⟩
    · next hword => exact ⟨_, .tail _ (.head _), String.toList_ofList.symm.trans (congrArg _ hword)⟩
    · next hword =>
      exact ⟨_, .tail _ (.tail _ (.head _)), String.toList_ofList.symm.trans (congrArg _ hword)⟩
    · cases hread
  obtain ⟨word, hword, hcs⟩ := hlower
  have hletters : ∀ word ∈ ["inf", "infinity", "nan"],
      word.toList ≠ [] ∧ word.toList.all fun c => c.toNat < 128 && c.isAlpha := by decide
  obtain ⟨hne, hall⟩ := hletters word hword
  simp only [List.all_eq_true, Bool.and_eq_true, decide_eq_true_eq] at hall
  rw [← hcs] at hne hall
  obtain ⟨c, cs', rfl⟩ := List.exists_cons_of_ne_nil (List.map_eq_nil_iff.not.1 hne)
  exact ⟨c, cs', rfl, fun c hc => isNameStart_of_toLower (hall _ (List.mem_map_of_mem hc))⟩

/-- They are no plain names. -/
theorem not_spelled_word {x : Float} (h : Spelled operand cs ts)
    (hread : Numeric.readWord cs = some x) : False := by
  obtain ⟨c, cs, rfl, hall⟩ := isNameStart_of_readWord hread
  obtain ⟨-, hword⟩ := spelled_name h (hall c List.mem_cons_self) (List.all_eq_true.2 fun c hc =>
    Text.isNameChar_of_isNameStart (hall c (List.mem_cons_of_mem _ hc)))
  rw [hword] at hread
  cases hread

/-- A sign is a mark where no number begins behind it. -/
theorem spelled_minus (h : Spelled false ('-' :: cs) ts)
    (hcs : ∀ c ∈ cs.head?, Numeric.isDigit c = false) :
    ∃ us, ts = .mark .minus :: us ∧ Spelled false cs us :=
  Spelled.of_mark (m := .minus) h
    (Mark.longest_of_head fun m' => by cases m' <;> decide) fun _ _ => hcs

/-- A numeral is a single number, or none that the language knows. A sign `+`, a point in front and
an exponent are for `readNumeral` only. -/
theorem spelled_numeral {x : Float} (h : Spelled false cs ts)
    (hread : Numeric.readNumeral cs = some x) : ts = [.number x] ∨ Odd ts := by
  unfold Numeric.readNumeral at hread
  split at hread
  · next rest =>
    obtain ⟨y, hor, rfl⟩ := Option.map_eq_some_iff.1 hread
    rcases Option.or_eq_some_iff.1 hor with hread | ⟨-, hword⟩
    · obtain ⟨c, rest, rfl, hc | rfl⟩ := head_of_readUnsigned hread
      · exact spelled_negative h hc hread
      · obtain ⟨us, rfl, hus⟩ := spelled_minus h (by rintro _ ⟨⟩; decide)
        obtain ⟨us, rfl⟩ := spelled_point hus
        exact .inr .signPoint
    · obtain ⟨c, rest, rfl, hall⟩ := isNameStart_of_readWord hword
      have hc : Numeric.isDigit c = false := by
        refine Bool.eq_false_iff.2 fun hc => ?_
        have hstart := hall c List.mem_cons_self
        rw [(head_of_isDigit hc).1] at hstart
        cases hstart
      obtain ⟨us, -, hus⟩ := spelled_minus h (by rintro _ ⟨⟩; exact hc)
      exact absurd hword fun hword => not_spelled_word hus hword
  · next rest =>
    obtain ⟨us, rfl, -⟩ := Spelled.of_mark (m := .plus) h
      (Mark.longest_of_head fun m' => by cases m' <;> decide) nofun
    exact .inr .sign
  · rcases Option.or_eq_some_iff.1 hread with hread | ⟨-, hword⟩
    · obtain ⟨c, rest, rfl, hc | rfl⟩ := head_of_readUnsigned hread
      · exact spelled_digits h hc hread
      · obtain ⟨us, rfl⟩ := spelled_point h
        exact .inr .point
    · exact absurd hword fun hword => not_spelled_word h hword

/-! ### The characters of numerals -/

theorem isCalm_of_isNameChar (h : Text.isNameChar c) : isCalm c := by
  rw [isCalm, isWordChar_of_isNameChar h, Bool.or_true]
  rfl

theorem all_isCalm_of_digits (h : cs.all Numeric.isDigit) : cs.all isCalm :=
  List.all_eq_true.2 fun c hc =>
    isCalm_of_isNameChar (isNameChar_of_isDigit (List.all_eq_true.1 h c hc))

/-- An exponent is written in calm characters: a letter, perhaps a sign, and digits. -/
theorem all_isCalm_of_readExponent {k : Int} (h : Numeric.readExponent cs = some k) :
    cs.all isCalm := by
  cases cs with
  | nil => rfl
  | cons c cs =>
    have hc : isCalm c := by rcases head_of_readExponent h with rfl | rfl <;> decide
    rw [List.all_cons, hc, Bool.true_and]
    have hdigits {ds : List Char} {value : Option Int}
        (h : (if (ds.isEmpty || !ds.all Numeric.isDigit) = true then none else value) = some k) :
        ds.all isCalm := by
      split at h
      · cases h
      · next hds =>
        rw [Bool.or_eq_true, not_or, Bool.not_eq_true', Bool.not_eq_false] at hds
        exact all_isCalm_of_digits hds.2
    unfold Numeric.readExponent at h
    dsimp only at h
    split at h
    · split at h
      · rw [List.all_cons, hdigits h]
        decide
      · rw [List.all_cons, hdigits h]
        decide
      · exact hdigits h
    · cases h

/-- So is a numeral without a sign. It has digits, at most one point, and perhaps an exponent. -/
theorem all_isCalm_of_readUnsigned {x : Float} (h : Numeric.readUnsigned cs = some x) :
    cs.all isCalm := by
  have hdigits (cs : List Char) (h : (cs.dropWhile Numeric.isDigit).all isCalm) :
      cs.all isCalm := by
    rw [← List.takeWhile_append_dropWhile (p := Numeric.isDigit) (l := cs), List.all_append, h,
      all_isCalm_of_digits List.all_takeWhile]
    rfl
  have hexponent {rest : List Char} {fraction : Bool} {value : Int → Float}
      (h : (if fraction = true then none else (Numeric.readExponent rest).map value) = some x) :
      rest.all isCalm := by
    split at h
    · cases h
    · obtain ⟨k, hk, -⟩ := Option.map_eq_some_iff.1 h
      exact all_isCalm_of_readExponent hk
  refine hdigits cs ?_
  unfold Numeric.readUnsigned at h
  dsimp only at h
  split at h
  · next tail htail =>
    rw [htail, List.all_cons, hdigits tail (hexponent h)]
    decide
  · exact hexponent h

/-- And so is every numeral. None of the operators that are searched for can be hidden in one. -/
theorem all_isCalm_of_readNumeral {x : Float} (h : Numeric.readNumeral cs = some x) :
    cs.all isCalm := by
  have hunsigned {cs : List Char} {x : Float}
      (h : (Numeric.readUnsigned cs).or (Numeric.readWord cs) = some x) : cs.all isCalm := by
    rcases Option.or_eq_some_iff.1 h with h | ⟨-, h⟩
    · exact all_isCalm_of_readUnsigned h
    · obtain ⟨-, -, -, hall⟩ := isNameStart_of_readWord h
      exact List.all_eq_true.2 fun c hc =>
        isCalm_of_isNameChar (Text.isNameChar_of_isNameStart (hall c hc))
  unfold Numeric.readNumeral at h
  split at h
  · obtain ⟨y, hy, -⟩ := Option.map_eq_some_iff.1 h
    rw [List.all_cons, hunsigned hy]
    decide
  · rw [List.all_cons, hunsigned h]
    decide
  · exact hunsigned h

end ProcedureChart.Expr
