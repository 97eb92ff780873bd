import ProcedureChart.Proofs.Expr.Operands

/-!
# Scanning what is written

The other direction of plain writing: characters that are put together like a token are scanned as
that token, whatever stands in front of them, as long as what stands behind does not continue them
(`Scans`). One token after the other, the lexemes of a text are then known from how the text was put
together (`Lexes`).
-/

namespace ProcedureChart.Expr

variable {operand : Bool} {t : Token} {c : Char} {cs w rest : List Char} {ts : List Token}

/-! ### The end of a word -/

/-- What may stand behind a number or a name: nothing, or a character that stands in neither. -/
def Stops (rest : List Char) : Prop := ∀ c ∈ rest.head?, isWordChar c = false

theorem stops_nil : Stops [] := nofun

theorem stops_cons (h : isWordChar c = false) : Stops (c :: rest) := by
  rintro _ ⟨⟩
  exact h

/-- Characters of a class that is for numbers or names end where the word does. -/
theorem Stops.span {p : Char → Bool} (h : Stops rest) (hp : ∀ c, p c → isWordChar c)
    (hw : w.all p) :
    (w ++ rest).takeWhile p = w ∧ (w ++ rest).dropWhile p = rest := by
  rw [List.takeWhile_append_of_pos (List.all_eq_true.1 hw),
    List.dropWhile_append_of_pos (List.all_eq_true.1 hw)]
  cases rest with
  | nil => exact ⟨List.append_nil w, rfl⟩
  | cons c rest =>
    have hc : ¬p c := fun hpc => Bool.false_ne_true ((h c rfl).symm.trans (hp c hpc))
    rw [List.takeWhile_cons_of_neg hc, List.dropWhile_cons_of_neg hc]
    exact ⟨List.append_nil w, rfl⟩

/-! ### Cutting off a word -/

/-- Digits continue names, so they are characters of words. -/
theorem isWordChar_of_isDigit (h : Numeric.isDigit c) : isWordChar c :=
  isWordChar_of_isNameChar (isNameChar_of_isDigit h)

/-- A number is cut off whole: its digits, and a point with the digits behind it. A point with no
digit behind it would not be part of it. -/
theorem splitNumber_of_isUnsigned (hw : IsUnsigned w) (h : Stops rest) :
    splitNumber (w ++ rest) = (w, rest) := by
  obtain ⟨whole, fraction, -, hwhole, hfraction, rfl | ⟨hne, rfl⟩⟩ := hw
  · obtain ⟨htake, hdrop⟩ := h.span (fun _ => isWordChar_of_isDigit) hwhole
    rw [splitNumber, htake, hdrop]
    split
    · exact absurd (h '.' rfl) (by decide)
    · rfl
  · -- the point ends the whole digits, and a digit stands behind it
    obtain ⟨d, tail, rfl⟩ := List.exists_cons_of_ne_nil hne
    obtain ⟨hd, htail⟩ := Bool.and_eq_true_iff.1 (List.all_cons ▸ hfraction)
    obtain ⟨htake, hdrop⟩ := splitDigits (c := '.') (r := d :: (tail ++ rest)) hwhole (by decide)
    obtain ⟨htake', hdrop'⟩ := h.span (fun _ => isWordChar_of_isDigit) htail
    rw [List.append_assoc, List.cons_append, List.cons_append, splitNumber, htake, hdrop]
    simp only [hd, if_true, htake', hdrop']

/-- What is written like a number has a value: its digits are all taken, and nothing is left over
for an exponent. -/
theorem readUnsigned_of_isUnsigned (hw : IsUnsigned w) :
    Numeric.readUnsigned w = some (numberValue w) := by
  obtain ⟨whole, fraction, hne, hwhole, hfraction, h⟩ := hw
  have hempty : ¬whole.isEmpty := fun hempty => hne (List.isEmpty_iff.1 hempty)
  have hsome : (Numeric.readUnsigned w).isSome := by
    rcases h with rfl | ⟨-, rfl⟩
    · obtain ⟨htake, hdrop⟩ := stops_nil.span (fun _ => isWordChar_of_isDigit) hwhole
      rw [List.append_nil] at htake hdrop
      simp [Numeric.readUnsigned, htake, hdrop, hempty, Numeric.readExponent]
    · obtain ⟨htake, hdrop⟩ := splitDigits (c := '.') (r := fraction) hwhole (by decide)
      obtain ⟨-, hdrop'⟩ := stops_nil.span (fun _ => isWordChar_of_isDigit) hfraction
      rw [List.append_nil] at hdrop'
      simp [Numeric.readUnsigned, htake, hdrop, hempty, hdrop', Numeric.readExponent]
  obtain ⟨x, hx⟩ := Option.isSome_iff_exists.1 hsome
  rw [numberValue, hx]
  rfl

/-- A name is cut off whole. -/
theorem splitName_of_all (hw : w.all Text.isNameChar) (h : Stops rest) :
    splitName (w ++ rest) = (w, rest) := by
  obtain ⟨htake, hdrop⟩ := h.span (fun _ => isWordChar_of_isNameChar) hw
  rw [splitName, htake, hdrop]

/-- The mark that is cut off is the longest one at the front, so `<=` is not cut off as `<`. The
longer ones come first in the list of all marks. -/
theorem splitMark_of_longest {m : Mark}
    (h : ∀ m' : Mark, m'.spelling <+: m.spelling ++ rest →
      m'.spelling.length ≤ m.spelling.length) (hcs : cs = m.spelling ++ rest) :
    ∃ hm, splitMark cs = some ⟨m, hm⟩ := by
  subst hcs
  have hmark : m.spelling <+: m.spelling ++ rest := List.prefix_append _ _
  cases hsplit : splitMark (m.spelling ++ rest) with
  | none =>
    have hnone := List.findSome?_eq_none_iff.1 hsplit m m.mem_all
    rw [dif_pos hmark] at hnone
    cases hnone
  | some found =>
    obtain ⟨m', hm'⟩ := found
    -- either of the two marks is at the front, and is no longer than the other
    have hlonger := length_le_of_splitMark hsplit m hmark
    have hbegin := List.prefix_of_prefix_length_le hmark hm' hlonger
    obtain rfl : m = m' :=
      Mark.spelling_injective (hbegin.eq_of_length (Nat.le_antisymm hlonger (h m' hm')))
    exact ⟨hmark, rfl⟩

/-! ### The end at a blank -/

/-- What may stand behind any token: nothing, or a blank. -/
def Spaced (rest : List Char) : Prop := ∀ c ∈ rest.head?, Text.isBlank c

theorem spaced_of_all {blanks : List Char} (h : blanks.all Text.isBlank) : Spaced blanks :=
  fun c hc => List.all_eq_true.1 h c (List.mem_of_mem_head? hc)

/-- Blanks may stand behind any token, if there are any, whatever stands behind them. -/
theorem spaced_append {blanks : List Char} (hne : blanks ≠ []) (h : blanks.all Text.isBlank) :
    Spaced (blanks ++ rest) := by
  obtain ⟨c, blanks, rfl⟩ := List.exists_cons_of_ne_nil hne
  rintro _ ⟨⟩
  exact (Bool.and_eq_true_iff.1 (List.all_cons ▸ h)).1

theorem Spaced.stops (h : Spaced rest) : Stops rest := fun c hc => isWordChar_of_isBlank (h c hc)

/-- No blank is a digit, so a minus sign in front of a blank is an operator. -/
theorem isDigit_of_isBlank (h : Text.isBlank c) : Numeric.isDigit c = false := by
  apply Bool.eq_false_iff.2
  intro hdigit
  rw [isBlank_of_isWordChar (isWordChar_of_isDigit hdigit)] at h
  cases h

/-- Marks are spelled without blanks. -/
theorem Mark.not_isBlank_of_mem_spelling {m : Mark} (h : c ∈ m.spelling) :
    Text.isBlank c = false := by
  have hall : ∀ m : Mark, m.spelling.all fun c => !Text.isBlank c := by
    intro m
    cases m <;> decide
  exact Bool.not_eq_true' _ |>.mp (List.all_eq_true.1 (hall m) c h)

/-- A blank continues no mark, so a mark with a blank behind it is the longest one there. -/
theorem Spaced.longest {m : Mark} (h : Spaced rest) (m' : Mark)
    (hm' : m'.spelling <+: m.spelling ++ rest) : m'.spelling.length ≤ m.spelling.length := by
  refine Nat.le_of_not_lt fun hlonger => ?_
  obtain ⟨more, hmore⟩ := hm'
  obtain ⟨behind, hbehind⟩ : m.spelling <+: m'.spelling :=
    List.prefix_of_prefix_length_le ⟨rest, rfl⟩ ⟨more, hmore⟩ (Nat.le_of_lt hlonger)
  cases behind with
  | nil =>
    rw [← hbehind, List.append_nil] at hlonger
    exact Nat.lt_irrefl _ hlonger
  | cons c behind =>
    -- the longer mark goes on with the blank
    rw [← hbehind, List.append_assoc] at hmore
    have hrest := List.append_cancel_left hmore
    have hblank : Text.isBlank c := h c (by rw [← hrest]; rfl)
    rw [Mark.not_isBlank_of_mem_spelling
      (hbehind ▸ List.mem_append_right _ List.mem_cons_self)] at hblank
    cases hblank

/-! ### Scanning a word -/

/-- The scanner takes a token off the front of a text, and what it takes is a given word. -/
def Scans (operand : Bool) (t : Token) (w rest : List Char) : Prop :=
  ∃ c cs, w = c :: cs ∧ Text.isBlank c = false ∧
    ∃ s : Scan (c :: (cs ++ rest)), scan operand c (cs ++ rest) = .ok s ∧
      s.token = t ∧ s.rest = rest

/-- A number is scanned whatever stands in front of it. -/
theorem scans_number (hw : IsUnsigned w) (h : Stops rest) :
    Scans operand (.number (numberValue w)) w rest := by
  obtain ⟨d, tail, rfl, hd⟩ := hw.cons
  have hsplit := splitNumber_of_isUnsigned hw h
  rw [List.cons_append] at hsplit
  refine ⟨d, tail, rfl, isBlank_of_isWordChar (isWordChar_of_isDigit hd), ?_⟩
  rw [scan, dif_pos hd]
  exact ⟨_, rfl, congrArg (fun split => Token.number (numberValue split.1)) hsplit,
    congrArg Prod.snd hsplit⟩

/-- A minus sign belongs to a number where no operand ends in front of it. -/
theorem scans_negative (hw : IsUnsigned w) (h : Stops rest) :
    Scans false (.number (-numberValue w)) ('-' :: w) rest := by
  obtain ⟨d, tail, rfl, hd⟩ := hw.cons
  have hsplit := splitNumber_of_isUnsigned hw h
  have hnumber : ('-' == '-' && !false && (d :: tail ++ rest).head?.any Numeric.isDigit) = true :=
    hd
  refine ⟨'-', _, rfl, by decide, ?_⟩
  rw [scan, dif_neg (by decide), if_pos hnumber]
  refine ⟨_, rfl, ?_, congrArg Prod.snd hsplit⟩
  simp only [hsplit]

/-- No name begins with a digit, so names are told from numbers by their first character. -/
theorem not_isDigit_of_isNameStart (h : Text.isNameStart c) : Numeric.isDigit c = false := by
  apply Bool.eq_false_iff.2
  intro hdigit
  rw [(head_of_isDigit hdigit).1] at h
  cases h

/-- A name is scanned as a name, keywords included: these are told apart by the parser. -/
theorem scans_name (hc : Text.isNameStart c) (hw : w.all Text.isNameChar) (h : Stops rest) :
    Scans operand (.name (String.ofList (c :: w))) (c :: w) rest := by
  have hsplit := splitName_of_all hw h
  have hminus : c ≠ '-' := by
    rintro rfl
    cases hc
  refine ⟨c, w, rfl,
    isBlank_of_isWordChar (isWordChar_of_isNameChar (Text.isNameChar_of_isNameStart hc)), ?_⟩
  rw [scan, dif_neg (Bool.eq_false_iff.1 (not_isDigit_of_isNameStart hc)),
    if_neg (by rw [beq_false_of_ne hminus]; exact Bool.false_ne_true), if_pos hc]
  exact ⟨_, rfl, congrArg (fun split => Token.name (String.ofList (c :: split.1))) hsplit,
    congrArg Prod.snd hsplit⟩

/-- A dollar sign has to have a name behind it. -/
theorem scans_state (hne : w ≠ []) (hw : w.all Text.isNameChar) (h : Stops rest) :
    Scans operand (.state (String.ofList w)) ('$' :: w) rest := by
  have hsplit := splitName_of_all hw h
  have hfilled : ¬(splitName (w ++ rest)).1.isEmpty := by
    rw [hsplit]
    exact fun hempty => hne (List.isEmpty_iff.1 hempty)
  refine ⟨'$', w, rfl, by decide, ?_⟩
  rw [scan, dif_neg (by decide), if_neg (by exact Bool.false_ne_true), if_neg (by decide),
    if_pos rfl]
  dsimp only
  rw [if_neg hfilled]
  exact ⟨_, rfl, congrArg (fun split => Token.state (String.ofList split.1)) hsplit,
    congrArg Prod.snd hsplit⟩

/-- A text in quotes is scanned as what it holds, its escapes resolved, and ends with its own quote.
So anything may stand behind it. -/
theorem scans_text {held raw : List Char} (hc : c = '\'' ∨ c = '"') (hraw : Quoted c held raw) :
    Scans operand (.text (String.ofList held)) (c :: raw) rest := by
  have hsplit : splitText c (raw ++ rest) = _ := hraw.splitText hc
  have hclass : Text.isBlank c = false ∧ ¬Numeric.isDigit c ∧ (c == '-') = false ∧
      ¬Text.isNameStart c ∧ c ≠ '$' := by
    rcases hc with rfl | rfl <;> decide
  obtain ⟨hblank, hdigit, hminus, hstart, hdollar⟩ := hclass
  refine ⟨c, raw, rfl, hblank, ?_⟩
  rw [scan, dif_neg hdigit, if_neg (by rw [hminus]; exact Bool.false_ne_true), if_neg hstart,
    if_neg hdollar, if_pos hc]
  split
  · next hnone =>
    rw [hsplit] at hnone
    cases hnone
  · next held' raw' rest' hsome =>
    rw [hsplit] at hsome
    cases hsome
    exact ⟨_, rfl, rfl, rfl⟩

/-- A mark is scanned if no longer one stands there, and if it is no minus sign that belongs to a
number. -/
theorem scans_mark {m : Mark}
    (hlongest : ∀ m' : Mark, m'.spelling <+: m.spelling ++ rest →
      m'.spelling.length ≤ m.spelling.length)
    (hminus : m = .minus → operand = false → ∀ c ∈ rest.head?, Numeric.isDigit c = false) :
    Scans operand (.mark m) m.spelling rest := by
  obtain ⟨c, cs, hm⟩ := List.exists_cons_of_ne_nil m.spelling_ne_nil
  obtain ⟨hblank, hdigit, hstart, hdollar, hsingle, hdouble, hsign⟩ :=
    m.head_spelling c (by rw [hm]; rfl)
  have hwhole : c :: (cs ++ rest) = m.spelling ++ rest := by rw [hm, List.cons_append]
  obtain ⟨hfront, hsplit⟩ := splitMark_of_longest hlongest hwhole
  have hnumber : ¬(c == '-' && !operand && (cs ++ rest).head?.any Numeric.isDigit) = true := by
    intro hnumber
    rw [Bool.and_eq_true, Bool.and_eq_true, beq_iff_eq, Bool.not_eq_true', Option.any_eq_true]
      at hnumber
    obtain ⟨⟨rfl, hoperand⟩, d, hd, hdigit⟩ := hnumber
    obtain rfl := hsign rfl
    obtain ⟨-, rfl⟩ := List.cons.inj hm
    rw [hminus rfl hoperand d hd] at hdigit
    cases hdigit
  refine ⟨c, cs, hm, hblank, ?_⟩
  rw [scan, dif_neg (Bool.eq_false_iff.1 hdigit), if_neg hnumber,
    if_neg (Bool.eq_false_iff.1 hstart), if_neg hdollar, if_neg (not_or.2 ⟨hsingle, hdouble⟩),
    hsplit]
  refine ⟨_, rfl, rfl, ?_⟩
  change List.drop m.spelling.length (c :: (cs ++ rest)) = rest
  rw [← List.cons_append, ← hm, List.drop_left]

/-- No token is spelled by nothing. -/
theorem Spells.ne_nil (h : Spells operand t w) : w ≠ [] := by
  cases h with
  | number hw => exact hw.ne_nil
  | negative | name | state | text => exact List.cons_ne_nil _ _
  | mark => exact Mark.spelling_ne_nil _

/-- Characters that spell a token are scanned as this token, if nothing or a blank stands behind
them. -/
theorem Spells.scans (h : Spells operand t w) (hrest : Spaced rest) : Scans operand t w rest := by
  cases h with
  | number hw => exact scans_number hw hrest.stops
  | negative hoperand hw =>
    subst hoperand
    exact scans_negative hw hrest.stops
  | name hc hw => exact scans_name hc hw hrest.stops
  | state hne hw => exact scans_state hne hw hrest.stops
  | text hquote hraw => exact scans_text hquote hraw
  | mark => exact scans_mark hrest.longest fun _ _ c hc => isDigit_of_isBlank (hrest c hc)

/-! ### Whole texts -/

/-- The lexemes of a text are those of some tokens, behind a token that can end an operand or behind
one that cannot. -/
def Lexes (operand : Bool) (cs : List Char) (ts : List Token) : Prop :=
  ∀ previous position, previous.any Token.endsOperand = operand →
    ∃ ls, lexemes previous position cs = .ok ls ∧ ls.map Lexeme.token = ts

theorem lexes_nil : Lexes operand [] [] := fun _ _ _ => ⟨[], by rw [lexemes], rfl⟩

/-- A blank in front makes no token. It shifts positions, and does not tell an operand from an
operator. -/
theorem Lexes.blank (hc : Text.isBlank c) (h : Lexes operand cs ts) :
    Lexes operand (c :: cs) ts := by
  intro previous position hprevious
  rw [lexemes, if_pos hc]
  exact h previous _ hprevious

/-- Nor do any number of blanks. -/
theorem Lexes.blanks {blanks : List Char} (hblanks : blanks.all Text.isBlank)
    (h : Lexes operand cs ts) : Lexes operand (blanks ++ cs) ts := by
  induction blanks with
  | nil => exact h
  | cons c blanks ih =>
    obtain ⟨hc, hblanks⟩ := Bool.and_eq_true_iff.1 (List.all_cons ▸ hblanks)
    exact (ih hblanks).blank hc

/-- A token in front of scanned text is the first lexeme, and whether it ends an operand is what the
next minus sign depends on. -/
theorem Lexes.token (hw : Scans operand t w rest) (h : Lexes t.endsOperand rest ts) :
    Lexes operand (w ++ rest) (t :: ts) := by
  obtain ⟨c, cs, rfl, hblank, s, hs, htoken, hrest⟩ := hw
  intro previous position hprevious
  obtain ⟨ls, hls, rfl⟩ := h (some t) (position + width s.slice) rfl
  refine ⟨⟨t, position⟩ :: ls, ?_, rfl⟩
  rw [List.cons_append, lexemes, if_neg (Bool.eq_false_iff.1 hblank), hprevious, hs]
  simp only [htoken, hrest, hls]

/-- A source begins where no operand ends. -/
theorem tokenize_of_lexes {source : String} (h : Lexes false source.toList ts) :
    ∃ ls, tokenize source = .ok ls ∧ ls.map Lexeme.token = ts :=
  h none 0 rfl

end ProcedureChart.Expr
