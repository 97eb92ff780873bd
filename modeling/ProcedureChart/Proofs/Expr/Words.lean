import ProcedureChart.Proofs.Expr.Spelling

/-!
# Plainly written sources

The tokens of a source together with how each of them is written. A source is written plainly if
its quoted texts hold no backslashes and no parentheses, if no name in it could be taken for a
number, and if no point follows a number (`words`). Such a token stays what it is when the source
ends earlier (`Takes.mono`).
-/

namespace ProcedureChart.Expr

/-- Whether a token that was taken off a source is written plainly. -/
def Scan.isPlain {source : List Char} (s : Scan source) : Bool :=
  match s.token with
  | .number _ => s.rest.head? != some '.'
  | .text t => !s.slice.contains '\\' && !t.toList.contains '(' && !t.toList.contains ')'
  | .name n => (Numeric.readWord n.toList).isNone
  | .state _ | .mark _ => true

/-- The tokens of a text that is written plainly, behind a token that can end an operand or behind
one that cannot. -/
def words (operand : Bool) (cs : List Char) : Option (List Token) :=
  match cs with
  | [] => some []
  | c :: rest =>
    if Text.isBlank c then words operand rest
    else
      match scan operand c rest with
      | .error _ => none
      | .ok s => if s.isPlain then (words s.token.endsOperand s.rest).map (s.token :: ·) else none
termination_by cs.length
decreasing_by
  · exact Nat.lt_succ_self _
  · exact s.length_rest_lt

/-! ### Plain tokens -/

/-- The characters of a plain token, and what may stand behind them. -/
inductive Takes (operand : Bool) : Token → List Char → List Char → Prop where
  | number {w r : List Char} :
      IsUnsigned w → (∀ c ∈ r.head?, Numeric.isDigit c = false ∧ c ≠ '.') →
      Takes operand (.number (numberValue w)) w r
  | negative {w r : List Char} :
      operand = false → IsUnsigned w → (∀ c ∈ r.head?, Numeric.isDigit c = false ∧ c ≠ '.') →
      Takes operand (.number (-numberValue w)) ('-' :: w) r
  | name {c : Char} {w r : List Char} :
      Text.isNameStart c → w.all Text.isNameChar → (∀ c ∈ r.head?, Text.isNameChar c = false) →
      Numeric.readWord (c :: w) = none →
      Takes operand (.name (String.ofList (c :: w))) (c :: w) r
  | state {w r : List Char} :
      w.all Text.isNameChar → (∀ c ∈ r.head?, Text.isNameChar c = false) →
      Takes operand (.state (String.ofList w)) ('$' :: w) r
  | text {quote : Char} {held r : List Char} :
      quote = '\'' ∨ quote = '"' → quote ∉ held → '(' ∉ held → ')' ∉ held →
      Takes operand (.text (String.ofList held)) (quote :: (held ++ [quote])) r
  | mark {m : Mark} {r : List Char} :
      (∀ m' : Mark, m'.spelling <+: m.spelling ++ r →
        m'.spelling.length ≤ m.spelling.length) →
      (m = .minus → operand = false → ∀ c ∈ r.head?, Numeric.isDigit c = false) →
      Takes operand (.mark m) m.spelling r

/-- A plain token that the scanner takes is written as it should be. What makes it plain is what the
readers of conditions rely on: no point behind a number, and no escape or parenthesis in a text. -/
theorem takes_of_scan {operand : Bool} {c : Char} {cs : List Char} {s : Scan (c :: cs)}
    (h : scan operand c cs = .ok s) (hplain : s.isPlain) :
    Takes operand s.token s.slice s.rest := by
  obtain ⟨hspells, hends⟩ := spells_of_scan h
  clear h
  obtain ⟨token, slice, rest, happend, hne⟩ := s
  dsimp only at hspells hends ⊢
  cases hspells with
  | number hw =>
    have hpoint : rest.head? ≠ some '.' := bne_iff_ne.1 hplain
    exact .number hw fun c' hc' => ⟨hends c' hc', fun heq => hpoint (heq ▸ hc')⟩
  | negative hoperand hw =>
    have hpoint : rest.head? ≠ some '.' := bne_iff_ne.1 hplain
    exact .negative hoperand hw fun c' hc' => ⟨hends c' hc', fun heq => hpoint (heq ▸ hc')⟩
  | name hstart hw =>
    refine .name hstart hw hends ?_
    simpa [Scan.isPlain] using hplain
  | state _ hw => exact .state hw hends
  | text hquote hraw =>
    simp only [Scan.isPlain, Bool.and_eq_true, Bool.not_eq_true', String.toList_ofList,
      List.contains_eq_mem, decide_eq_false_iff_not] at hplain
    obtain ⟨⟨hbackslash, hopen⟩, hclose⟩ := hplain
    obtain ⟨rfl, hheld⟩ := hraw.eq_append fun hmem => hbackslash (List.mem_cons_of_mem _ hmem)
    exact .text hquote hheld hopen hclose
  | mark => exact .mark hends.1 hends.2

/-! ### Whole texts -/

/-- The tokens of a text that is written plainly, behind a token that can end an operand or behind
one that cannot. -/
inductive Spelled : Bool → List Char → List Token → Prop where
  | nil {operand : Bool} : Spelled operand [] []
  | blank {operand : Bool} {c : Char} {cs : List Char} {ts : List Token} :
      Text.isBlank c → Spelled operand cs ts → Spelled operand (c :: cs) ts
  | token {operand : Bool} {t : Token} {w r : List Char} {ts : List Token} :
      (∀ c ∈ w.head?, Text.isBlank c = false) → Takes operand t w r →
      Spelled t.endsOperand r ts → Spelled operand (w ++ r) (t :: ts)

/-- What is computed as the tokens of a plainly written text is related to it as they are, token by
token and blank by blank. -/
theorem spelled_of_words {operand : Bool} {cs : List Char} {ts : List Token}
    (h : words operand cs = some ts) : Spelled operand cs ts := by
  fun_induction words operand cs generalizing ts with
  | case1 =>
    cases h
    exact .nil
  | case2 operand c rest hc ih => exact .blank hc (ih h)
  | case3 => cases h
  | case4 operand c rest hc s hs hplain ih =>
    obtain ⟨us, hus, rfl⟩ := Option.map_eq_some_iff.1 h
    have hfirst : ∀ c' ∈ s.slice.head?, Text.isBlank c' = false := by
      intro c' hc'
      obtain ⟨w, hw⟩ := List.head?_eq_some_iff.1 hc'
      have hsource := s.slice_append_rest
      rw [hw, List.cons_append] at hsource
      rw [(List.cons.inj hsource).1]
      exact Bool.eq_false_iff.2 hc
    have hspelled := Spelled.token hfirst (takes_of_scan hs hplain) (ih hus)
    rwa [s.slice_append_rest] at hspelled
  | case5 => cases h

/-- The tokens of a source that is written plainly are its lexemes. The two scanners differ in what
they refuse only. -/
theorem map_token_of_words {previous : Option Token} {position : Nat} {cs : List Char}
    {ts : List Token} {ls : List Lexeme} (h : words (previous.any Token.endsOperand) cs = some ts)
    (hlexemes : lexemes previous position cs = .ok ls) : ls.map Lexeme.token = ts := by
  fun_induction lexemes previous position cs generalizing ts ls with
  | case1 =>
    rw [words] at h
    cases h
    cases hlexemes
    rfl
  | case2 previous position c rest hc ih =>
    rw [words, if_pos hc] at h
    exact ih h hlexemes
  | case3 => cases hlexemes
  | case4 => cases hlexemes
  | case5 previous position c rest hc s hs more hmore ih =>
    rw [words, if_neg hc, hs] at h
    dsimp only at h
    split at h
    · obtain ⟨us, hus, rfl⟩ := Option.map_eq_some_iff.1 h
      cases hlexemes
      rw [List.map_cons, ih hus hmore]
    · cases h

/-! ### The beginning of a text -/

/-- What ends a token still ends it where less stands behind it. -/
theorem stops_mono {p : Char → Prop} {r r' : List Char} (h : ∀ c ∈ r.head?, p c)
    (hbegin : r' <+: r) : ∀ c ∈ r'.head?, p c := by
  obtain ⟨more, rfl⟩ := hbegin
  intro c hc
  refine h c ?_
  cases r' with
  | nil => cases hc
  | cons => exact hc

/-- A token stays what it is where less stands behind it. -/
theorem Takes.mono {operand : Bool} {t : Token} {w r r' : List Char}
    (h : Takes operand t w r) (hbegin : r' <+: r) : Takes operand t w r' := by
  cases h with
  | number hw hr => exact .number hw (stops_mono hr hbegin)
  | negative hoperand hw hr => exact .negative hoperand hw (stops_mono hr hbegin)
  | name hc hw hr hword => exact .name hc hw (stops_mono hr hbegin) hword
  | state hw hr => exact .state hw (stops_mono hr hbegin)
  | text hquote hheld hopen hclose => exact .text hquote hheld hopen hclose
  | mark hlongest hminus =>
    refine .mark (fun m' hm' => hlongest m' (hm'.trans ?_)) fun heq hoperand =>
      stops_mono (hminus heq hoperand) hbegin
    exact List.prefix_append_right_inj _ |>.2 hbegin

/-! ### The characters of tokens -/

/-- Whether a character can stand in a number or a name. -/
def isWordChar (c : Char) : Bool := Text.isNameChar c || c == '$' || c == '.' || c == '-'

theorem isWordChar_of_isNameChar {c : Char} (h : Text.isNameChar c) : isWordChar c := by
  rw [isWordChar, h]
  rfl

/-- Digits continue names. -/
theorem isNameChar_of_isDigit {c : Char} (h : Numeric.isDigit c) : Text.isNameChar c := by
  rw [Numeric.isDigit, Bool.and_eq_true, decide_eq_true_iff, decide_eq_true_iff] at h
  have hascii : c.toNat < 0x80 := Nat.lt_of_le_of_lt h.2 (by decide)
  have hdigit : c.isDigit = true := by
    rw [Char.isDigit, Bool.and_eq_true, decide_eq_true_iff, decide_eq_true_iff]
    exact h
  rw [Text.isNameChar, Text.isNumeric, if_pos hascii, hdigit, Bool.or_true, Bool.true_or]

/-- The code points of blanks. -/
def blankCodes : List Nat := [
  0x20, 0x09, 0x0A, 0x0B, 0x0C, 0x0D, 0x85, 0xA0, 0x1680, 0x2000, 0x2001, 0x2002, 0x2003, 0x2004,
  0x2005, 0x2006, 0x2007, 0x2008, 0x2009, 0x200A, 0x2028, 0x2029, 0x202F, 0x205F, 0x3000]

/-- There are only finitely many blanks, so what is said of them can be tried out one by one. -/
theorem mem_blankCodes {c : Char} (h : Text.isBlank c) : c.toNat ∈ blankCodes := by
  simp only [Text.isBlank, Text.inRanges, Text.blankRanges, List.any_cons, List.any_nil] at h
  simp only [blankCodes, List.mem_cons, List.not_mem_nil, or_false]
  split at h
  · simp only [Bool.or_eq_true, Bool.and_eq_true, beq_iff_eq, decide_eq_true_iff] at h
    omega
  · simp only [Bool.or_eq_true, Bool.and_eq_true, Bool.or_false, decide_eq_true_iff] at h
    omega

/-- No blank stands in a number or a name. -/
theorem isWordChar_of_isBlank {c : Char} (h : Text.isBlank c) : isWordChar c = false := by
  have hmem := mem_blankCodes h
  rw [← Char.ofNat_toNat c]
  generalize c.toNat = n at hmem
  revert n
  decide +kernel

/-- No character of a word is a blank. -/
theorem isBlank_of_isWordChar {c : Char} (h : isWordChar c) : Text.isBlank c = false :=
  Bool.eq_false_iff.2 fun hblank => by
    rw [isWordChar_of_isBlank hblank] at h
    cases h

theorem all_isWordChar_of_isNameChar {w : List Char} (h : w.all Text.isNameChar) :
    w.all isWordChar :=
  List.all_eq_true.2 fun c hc => isWordChar_of_isNameChar (List.all_eq_true.1 h c hc)

theorem IsUnsigned.all_isWordChar {w : List Char} (h : IsUnsigned w) : w.all isWordChar := by
  have hdigits : ∀ ds : List Char, ds.all Numeric.isDigit → ds.all isWordChar := fun ds hds =>
    List.all_eq_true.2 fun c hc =>
      isWordChar_of_isNameChar (isNameChar_of_isDigit (List.all_eq_true.1 hds c hc))
  obtain ⟨whole, fraction, -, hwhole, hfraction, rfl | ⟨-, rfl⟩⟩ := h
  · exact hdigits _ hwhole
  · rw [List.all_append, hdigits _ hwhole, List.all_cons, hdigits _ hfraction]
    decide

/-- How far a token leads into parentheses. -/
def Token.turn : Token → Int
  | .mark .openParen => 1
  | .mark .closeParen => -1
  | _ => 0

/-- The characters of a token: those of a word, a quoted text, or a mark. -/
inductive Shape : Token → List Char → Prop where
  | word {t : Token} {w : List Char} :
      t.turn = 0 → (∀ m, t ≠ .mark m) → w ≠ [] → w.all isWordChar → Shape t w
  | text {quote : Char} {held : List Char} :
      quote = '\'' ∨ quote = '"' → quote ∉ held → '(' ∉ held → ')' ∉ held →
      Shape (.text (String.ofList held)) (quote :: (held ++ [quote]))
  | mark {m : Mark} : Shape (.mark m) m.spelling

theorem IsUnsigned.ne_nil {w : List Char} (h : IsUnsigned w) : w ≠ [] := by
  obtain ⟨whole, fraction, hne, -, -, rfl | ⟨-, rfl⟩⟩ := h
  · exact hne
  · exact List.append_ne_nil_of_left_ne_nil hne _

/-- A plain token has the shape of its kind, whatever stands behind it. A negative number is a word,
since a minus sign can be in one. -/
theorem Takes.shape {operand : Bool} {t : Token} {w r : List Char} (h : Takes operand t w r) :
    Shape t w := by
  cases h with
  | number hw _ => exact .word rfl nofun hw.ne_nil hw.all_isWordChar
  | negative _ hw _ =>
    refine .word rfl nofun (List.cons_ne_nil _ _) ?_
    rw [List.all_cons, hw.all_isWordChar]
    decide
  | name hc hw _ _ =>
    refine .word rfl nofun (List.cons_ne_nil _ _) (all_isWordChar_of_isNameChar ?_)
    rw [List.all_cons, hw, Text.isNameChar_of_isNameStart hc]
    rfl
  | state hw _ =>
    refine .word rfl nofun (List.cons_ne_nil _ _) ?_
    rw [List.all_cons, all_isWordChar_of_isNameChar hw]
    decide
  | text hquote hheld hopen hclose => exact .text hquote hheld hopen hclose
  | mark => exact .mark

/-- A token has characters. -/
theorem Shape.ne_nil {t : Token} {w : List Char} (h : Shape t w) : w ≠ [] := by
  cases h with
  | word _ _ hne _ => exact hne
  | text => exact List.cons_ne_nil _ _
  | mark => exact Mark.spelling_ne_nil _

/-! ### The front of a text -/

/-- A text of no characters has no tokens. -/
theorem Spelled.eq_nil {operand : Bool} {ts : List Token} (h : Spelled operand [] ts) :
    ts = [] := by
  generalize hcs : ([] : List Char) = cs at h
  cases h with
  | nil => rfl
  | blank => cases hcs
  | token _ ht _ => exact absurd (List.append_eq_nil_iff.1 hcs.symm).1 ht.shape.ne_nil

/-- A text begins with a blank or with the characters of a token. No token begins with a blank, so
it is never both. -/
theorem Spelled.cons_cases {operand : Bool} {c : Char} {cs : List Char} {ts : List Token}
    (h : Spelled operand (c :: cs) ts) :
    Text.isBlank c ∧ Spelled operand cs ts ∨
      Text.isBlank c = false ∧ ∃ t w r us, cs = w ++ r ∧ Takes operand t (c :: w) r ∧
        Spelled t.endsOperand r us ∧ ts = t :: us := by
  generalize hwhole : c :: cs = whole at h
  cases h with
  | nil => cases hwhole
  | blank hb hrest =>
    cases hwhole
    exact .inl ⟨hb, hrest⟩
  | @token _ t w r us hw ht hr =>
    obtain ⟨c', w', rfl⟩ := List.exists_cons_of_ne_nil ht.shape.ne_nil
    rw [List.cons_append] at hwhole
    obtain ⟨rfl, rfl⟩ := List.cons.inj hwhole
    exact .inr ⟨hw c rfl, t, w', r, us, rfl, ht, hr, rfl⟩

/-- No token but a mark begins like a mark, a negative number aside. -/
theorem Mark.head_spelling (m : Mark) : ∀ c ∈ m.spelling.head?,
    Text.isBlank c = false ∧ Numeric.isDigit c = false ∧ Text.isNameStart c = false ∧ c ≠ '$' ∧
      c ≠ '\'' ∧ c ≠ '"' ∧ (c = '-' → m = .minus) := by
  intro c hc
  cases m <;> cases hc <;> decide

/-- A number begins with a digit, since there is one in front of the point. -/
theorem IsUnsigned.cons {w : List Char} (h : IsUnsigned w) :
    ∃ d w', w = d :: w' ∧ Numeric.isDigit d := by
  obtain ⟨whole, fraction, hne, hwhole, -, h⟩ := h
  obtain ⟨d, whole, rfl⟩ := List.exists_cons_of_ne_nil hne
  have hd : Numeric.isDigit d := (Bool.and_eq_true_iff.1 hwhole).1
  rcases h with rfl | ⟨-, rfl⟩
  · exact ⟨d, whole, rfl, hd⟩
  · exact ⟨d, _, rfl, hd⟩

/-- A mark is the longest one at the front of a text if no longer one begins with its character. -/
theorem Mark.longest_of_head {m : Mark} {r : List Char}
    (h : ∀ m' : Mark, m'.spelling.head? = m.spelling.head? →
      m'.spelling.length ≤ m.spelling.length) :
    ∀ m' : Mark, m'.spelling <+: m.spelling ++ r → m'.spelling.length ≤ m.spelling.length := by
  rintro m' ⟨more, hmore⟩
  refine h m' ?_
  obtain ⟨c, cs, hm⟩ := List.exists_cons_of_ne_nil m.spelling_ne_nil
  obtain ⟨c', cs', hm'⟩ := List.exists_cons_of_ne_nil m'.spelling_ne_nil
  rw [hm, hm'] at hmore ⊢
  obtain ⟨rfl, -⟩ := List.cons.inj hmore
  rfl

/-- The longest mark at the front of a text is its first token, unless a number begins there. No
other kind of token begins with a character of a mark. -/
theorem Spelled.of_mark {operand : Bool} {m : Mark} {r : List Char} {ts : List Token}
    (h : Spelled operand (m.spelling ++ r) ts)
    (hlongest : ∀ m' : Mark, m'.spelling <+: m.spelling ++ r →
      m'.spelling.length ≤ m.spelling.length)
    (hminus : m = .minus → operand = false → ∀ c ∈ r.head?, Numeric.isDigit c = false) :
    ∃ us, ts = .mark m :: us ∧ Spelled (Token.mark m).endsOperand r us := by
  obtain ⟨c, cs, hm⟩ := List.exists_cons_of_ne_nil m.spelling_ne_nil
  have hhead := m.head_spelling
  rw [hm] at hhead
  obtain ⟨hblank, hdigit, hstart, hdollar, hsingle, hdouble, hsign⟩ := hhead c rfl
  have hwhole : m.spelling ++ r = c :: (cs ++ r) := by rw [hm, List.cons_append]
  rw [hwhole] at h
  rcases h.cons_cases with ⟨hc, -⟩ | ⟨-, t, w, r', us, hcs, ht, hr, rfl⟩
  · rw [hblank] at hc
    cases hc
  generalize hw : c :: w = w' at ht
  cases ht with
  | number hunsigned _ =>
    obtain ⟨d, w', rfl, hd⟩ := hunsigned.cons
    rw [← (List.cons.inj hw).1, hdigit] at hd
    cases hd
  | negative hoperand hunsigned _ =>
    obtain ⟨d, w', rfl, hd⟩ := hunsigned.cons
    obtain ⟨rfl, rfl⟩ := List.cons.inj hw
    obtain rfl := hsign rfl
    obtain ⟨-, rfl⟩ := List.cons.inj hm
    rw [hminus rfl hoperand d (congrArg List.head? hcs)] at hd
    cases hd
  | name hname _ _ _ =>
    rw [← (List.cons.inj hw).1, hstart] at hname
    cases hname
  | state _ _ => exact absurd (List.cons.inj hw).1 hdollar
  | text hquote _ _ _ =>
    rw [← (List.cons.inj hw).1] at hquote
    exact absurd hquote (not_or.2 ⟨hsingle, hdouble⟩)
  | @mark m' _ hlongest' _ =>
    -- either of the two marks is at the front, and is no longer than the other
    have hmarks : m'.spelling ++ r' = m.spelling ++ r := by
      rw [hwhole, hcs, ← hw, List.cons_append]
    have hle := hlongest m' (hmarks ▸ List.prefix_append _ _)
    have hge := hlongest' m (hmarks ▸ List.prefix_append _ _)
    obtain ⟨hspelling, rfl⟩ := List.append_inj hmarks (Nat.le_antisymm hle hge)
    obtain rfl := Mark.spelling_injective hspelling
    exact ⟨us, rfl, hr⟩

/-- A blank in front may be left out. No token begins with a blank, so it is none of the first
token's. -/
theorem Spelled.of_blank {operand : Bool} {c : Char} {cs : List Char} {ts : List Token}
    (h : Spelled operand (c :: cs) ts) (hc : Text.isBlank c) : Spelled operand cs ts := by
  rcases h.cons_cases with ⟨-, hrest⟩ | ⟨hblank, -⟩
  · exact hrest
  · rw [hc] at hblank
    cases hblank

/-- So may all blanks in front. -/
theorem Spelled.trimFront {operand : Bool} {cs : List Char} {ts : List Token}
    (h : Spelled operand cs ts) : Spelled operand (Text.trimFront cs) ts := by
  induction cs with
  | nil => exact h
  | cons c cs ih =>
    rw [Text.trimFront, List.dropWhile_cons]
    split
    · next hc => exact ih (h.of_blank hc)
    · exact h

/-! ### The end of a text -/

/-- A token ends neither with a blank nor, if it is not one itself, with a closing parenthesis. -/
theorem Shape.last {t : Token} {w : List Char} {c : Char} (h : Shape t (w ++ [c])) :
    Text.isBlank c = false ∧ (c = ')' → t = .mark .closeParen ∧ w = []) := by
  generalize hwc : w ++ [c] = wc at h
  cases h with
  | word _ _ _ hall =>
    have hc : isWordChar c :=
      List.all_eq_true.1 hall c (hwc ▸ List.mem_append_right _ List.mem_cons_self)
    refine ⟨isBlank_of_isWordChar hc, ?_⟩
    rintro rfl
    cases (by decide : isWordChar ')' = false).symm.trans hc
  | text hquote =>
    rw [← List.cons_append] at hwc
    obtain ⟨-, hc⟩ := List.append_inj' hwc rfl
    obtain rfl := List.singleton_inj.1 hc
    rcases hquote with rfl | rfl
    · exact ⟨by decide, fun h => absurd h (by decide)⟩
    · exact ⟨by decide, fun h => absurd h (by decide)⟩
  | @mark m =>
    have hlast : m.spelling.getLast? = some c := by rw [← hwc, List.getLast?_concat]
    have hmark : ∀ m : Mark, ∀ c ∈ m.spelling.getLast?,
        Text.isBlank c = false ∧ (c = ')' → m = .closeParen) := by
      intro m c hc
      cases m <;> cases hc <;> decide
    refine ⟨(hmark m c hlast).1, fun hc => ?_⟩
    obtain rfl := (hmark m c hlast).2 hc
    exact ⟨rfl, List.append_inj_left' hwc rfl⟩

/-- Blanks and closing parentheses at the end of a text stand by themselves. So the text can be
trimmed at its end, and its last parenthesis be taken off, without touching another token. -/
theorem Spelled.concat {operand : Bool} {cs : List Char} {c : Char} {ts : List Token}
    (h : Spelled operand (cs ++ [c]) ts) (hc : Text.isBlank c ∨ c = ')') :
    ∃ us, Spelled operand cs us ∧ ts = us ++ if c = ')' then [.mark .closeParen] else [] := by
  generalize hwhole : cs ++ [c] = whole at h
  induction h generalizing cs with
  | nil => exact absurd hwhole (List.append_ne_nil_of_right_ne_nil _ (List.cons_ne_nil _ _))
  | @blank operand b rest ts hb hrest ih =>
    cases cs with
    | nil =>
      obtain ⟨rfl, rfl⟩ := List.cons.inj hwhole
      obtain rfl := hrest.eq_nil
      refine ⟨[], .nil, ?_⟩
      rw [if_neg, List.append_nil]
      rintro rfl
      cases hb
    | cons b' cs =>
      obtain ⟨rfl, hrest⟩ := List.cons.inj hwhole
      obtain ⟨us, hus, rfl⟩ := ih hrest
      exact ⟨us, .blank hb hus, rfl⟩
  | @token operand t w r ts hw ht hr ih =>
    rcases List.eq_nil_or_concat r with rfl | ⟨r', x, rfl⟩
    · -- the last character is the token itself
      rw [List.append_nil] at hwhole
      subst hwhole
      obtain ⟨hblank, hclose⟩ := ht.shape.last
      rcases hc with hc | rfl
      · rw [hc] at hblank
        cases hblank
      · obtain ⟨rfl, rfl⟩ := hclose rfl
        obtain rfl := hr.eq_nil
        exact ⟨[], .nil, rfl⟩
    · rw [List.concat_eq_append, ← List.append_assoc] at hwhole
      obtain ⟨rfl, hx⟩ := List.append_inj' hwhole rfl
      obtain rfl := List.singleton_inj.1 hx
      obtain ⟨us, hus, rfl⟩ := ih (List.concat_eq_append ..).symm
      refine ⟨t :: us, .token hw (ht.mono ?_) hus, rfl⟩
      rw [List.concat_eq_append]
      exact List.prefix_append _ _

/-- All blanks behind may be left out as well: each token stays what it is when the text ends
earlier. -/
theorem Spelled.trimBack {operand : Bool} {cs : List Char} {ts : List Token}
    (h : Spelled operand cs ts) : Spelled operand (Text.trimBack cs) ts := by
  have hreverse : ∀ cs : List Char, Spelled operand cs.reverse ts →
      Spelled operand (cs.dropWhile Text.isBlank).reverse ts := by
    intro cs h
    induction cs with
    | nil => exact h
    | cons c cs ih =>
      rw [List.dropWhile_cons]
      split
      · next hc =>
        rw [List.reverse_cons] at h
        obtain ⟨us, hus, hts⟩ := h.concat (.inl hc)
        rw [if_neg (by rintro rfl; cases hc), List.append_nil] at hts
        exact ih (hts ▸ hus)
      · exact h
  rw [← List.reverse_reverse cs] at h
  exact hreverse _ h

/-- Blanks around a text do not matter. -/
theorem Spelled.trim {operand : Bool} {cs : List Char} {ts : List Token}
    (h : Spelled operand cs ts) : Spelled operand (Text.trim cs) ts :=
  h.trimFront.trimBack

end ProcedureChart.Expr
