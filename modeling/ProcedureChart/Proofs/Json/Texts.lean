import ProcedureChart.Json.Parser
import ProcedureChart.Json.Printer

/-!
# Tokens and texts in JSON texts

What a reader takes off the front of a text, said without the bound on its length (`Gives`). A mark
is found behind blanks (`skip?_eq_some`), and a text is read back from between the quotes that it is
written in, whatever follows them (`textBody?_quoted`).
-/

namespace ProcedureChart.Json

/-- A reader takes a result off the front of a text and leaves the rest. -/
def Gives {α : Type} {p : List Char → Prop} (reading : Option (α × Subtype p)) (a : α)
    (rest : List Char) : Prop :=
  ∃ h, reading = some (a, ⟨rest, h⟩)

theorem Gives.unique {α : Type} {p : List Char → Prop} {reading : Option (α × Subtype p)}
    {a b : α} {rest left : List Char} (h : Gives reading a rest) (h' : Gives reading b left) :
    a = b ∧ rest = left := by
  obtain ⟨_, h⟩ := h
  obtain ⟨_, h'⟩ := h'
  cases h.symm.trans h'
  exact ⟨rfl, rfl⟩

/-! ### Marks -/

/-- A text begins with a character that is no blank. -/
theorem skipBlanks_cons {c : Char} (h : isBlank c = false) (cs : List Char) :
    (skipBlanks (c :: cs)).1 = c :: cs := by
  rw [skipBlanks, if_neg (Bool.eq_false_iff.1 h)]

/-- A mark is found if it is first behind the blanks. -/
theorem skip?_eq_some {mark : Char} {cs rest : List Char}
    (h : (skipBlanks cs).1 = mark :: rest) : ∃ hlt, skip? mark cs = some ⟨rest, hlt⟩ := by
  unfold skip?
  split
  · next heq =>
    rw [heq] at h
    cases h
  · next c rest' hle heq =>
    rw [heq] at h
    cases h
    exact ⟨hle, if_pos rfl⟩

/-- A mark is not found if something else is first behind the blanks. -/
theorem skip?_eq_none {mark : Char} {cs : List Char}
    (h : (skipBlanks cs).1.head? ≠ some mark) : skip? mark cs = none := by
  unfold skip?
  split
  · rfl
  · next c rest hle heq =>
    rw [heq] at h
    exact if_neg fun hc => h (congrArg some hc)

theorem skip?_cons (mark : Char) (hblank : isBlank mark = false) (cs : List Char) :
    skip? mark (mark :: cs) = some ⟨cs, Nat.lt_succ_self _⟩ := by
  obtain ⟨_, h⟩ := skip?_eq_some (skipBlanks_cons hblank cs)
  exact h

theorem skip?_cons_of_ne {c mark : Char} (hblank : isBlank c = false) (hne : c ≠ mark)
    (cs : List Char) : skip? mark (c :: cs) = none := by
  apply skip?_eq_none
  rw [skipBlanks_cons hblank]
  exact fun heq => hne (Option.some.inj heq)

/-! ### Texts -/

theorem hexDigit?_hexDigit {n : Nat} (h : n < 16) : hexDigit? (hexDigit n) = some n := by
  have hall : ∀ n < 16, hexDigit? (hexDigit n) = some n := by decide
  exact hall n h

/-- The escape of a control character is read as that character. -/
theorem escape?_unicode {c : Char} (h : c.toNat < 0x20) (rest : List Char) :
    Gives
      (escape? ('u' :: '0' :: '0' :: hexDigit (c.toNat / 16) :: hexDigit (c.toNat % 16) :: rest))
      c rest := by
  have hhigh := hexDigit?_hexDigit (n := c.toNat / 16) (by omega)
  have hlow := hexDigit?_hexDigit (n := c.toNat % 16) (by omega)
  have hzero : hexDigit? '0' = some 0 := rfl
  have hcode : c.toNat / 16 * 16 + c.toNat % 16 = c.toNat := by omega
  have hsmall : c.toNat < 0xD800 := by omega
  refine ⟨by simp only [List.length_cons]; omega, ?_⟩
  simp [escape?, unicodeEscape?, hexCode?, hhigh, hlow, hzero, hcode, hsmall]

/-- A backslash is read together with the escape behind it. -/
theorem textBody?_escape {done cs rest after : List Char} {c : Char} {s : String}
    (hescape : Gives (escape? cs) c rest) (h : Gives (textBody? (c :: done) rest) s after) :
    Gives (textBody? done ('\\' :: cs)) s after := by
  obtain ⟨hlt, hescape⟩ := hescape
  obtain ⟨hlt', h⟩ := h
  refine ⟨by simp only [List.length_cons]; omega, ?_⟩
  rw [textBody?, if_neg (by decide), if_pos rfl]
  simp only [hescape, h]

/-- Inside quotes a character stands behind a backslash, by its code or as it is. The reader tells
the three apart by what it meets first. -/
theorem quotedChar_cases (c : Char) :
    (∃ x, quotedChar c = ['\\', x] ∧ ∀ rest, Gives (escape? (x :: rest)) c rest) ∨
      (c.toNat < 0x20 ∧ quotedChar c =
        ['\\', 'u', '0', '0', hexDigit (c.toNat / 16), hexDigit (c.toNat % 16)]) ∨
      (c ≠ '"' ∧ c ≠ '\\' ∧ ¬c.toNat < 0x20 ∧ quotedChar c = [c]) := by
  unfold quotedChar
  split
  · next hc => exact .inl ⟨'"', rfl, fun _ => by rw [hc]; exact ⟨_, rfl⟩⟩
  split
  · next hc => exact .inl ⟨'\\', rfl, fun _ => by rw [hc]; exact ⟨_, rfl⟩⟩
  split
  · next hc => exact .inl ⟨'n', rfl, fun _ => by rw [hc]; exact ⟨_, rfl⟩⟩
  split
  · next hc => exact .inl ⟨'r', rfl, fun _ => by rw [hc]; exact ⟨_, rfl⟩⟩
  split
  · next hc => exact .inl ⟨'t', rfl, fun _ => by rw [hc]; exact ⟨_, rfl⟩⟩
  split
  · next hc => exact .inl ⟨'b', rfl, fun _ => by rw [hc]; exact ⟨_, rfl⟩⟩
  split
  · next hc => exact .inl ⟨'f', rfl, fun _ => by rw [hc]; exact ⟨_, rfl⟩⟩
  split
  · next hcontrol => exact .inr (.inl ⟨hcontrol, rfl⟩)
  · next hquote hslash _ _ _ _ _ hcontrol => exact .inr (.inr ⟨hquote, hslash, hcontrol, rfl⟩)

/-- A character is read back from how it stands inside quotes. -/
theorem textBody?_quotedChar {done rest after : List Char} {s : String} (c : Char)
    (h : Gives (textBody? (c :: done) rest) s after) :
    Gives (textBody? done (quotedChar c ++ rest)) s after := by
  rcases quotedChar_cases c with ⟨x, hc, hx⟩ | ⟨hcontrol, hc⟩ | ⟨hquote, hslash, hcontrol, hc⟩
  · rw [hc]
    exact textBody?_escape (hx rest) h
  · rw [hc]
    exact textBody?_escape (escape?_unicode hcontrol rest) h
  · rw [hc, List.singleton_append]
    obtain ⟨hlt, h⟩ := h
    refine ⟨Nat.lt_succ_of_lt hlt, ?_⟩
    rw [textBody?, if_neg hquote, if_neg hslash, if_neg hcontrol]
    simp only [h]

/-- A text is read back up to its closing quote. -/
theorem textBody?_flatMap (cs done rest : List Char) :
    Gives (textBody? done (cs.flatMap quotedChar ++ '"' :: rest))
      (String.ofList (done.reverse ++ cs)) rest := by
  induction cs generalizing done with
  | nil =>
    rw [List.append_nil, List.flatMap_nil, List.nil_append]
    exact ⟨Nat.lt_succ_self _, by rw [textBody?, if_pos rfl]⟩
  | cons c cs ih =>
    have hrest := ih (c :: done)
    rw [List.reverse_cons, List.append_assoc, List.singleton_append] at hrest
    rw [List.flatMap_cons, List.append_assoc]
    exact textBody?_quotedChar c hrest

/-- **Texts read back**: what is written in quotes is read from behind the opening quote. Every
character of a text is allowed: quotes, backslashes and control characters are written as escapes,
and the reader takes all others as they are. -/
theorem textBody?_quoted (s : String) (rest : List Char) :
    Gives (textBody? [] (s.toList.flatMap quotedChar ++ '"' :: rest)) s rest := by
  have hbody := textBody?_flatMap s.toList [] rest
  rwa [List.reverse_nil, List.nil_append, String.ofList_toList] at hbody

/-- The characters of a text in quotes. It is built by pushing them one by one, from the left. -/
theorem quote_toList (s : String) :
    (quote s).toList = '"' :: (s.toList.flatMap quotedChar ++ ['"']) := by
  have hpush (acc : String) (cs : List Char) :
      (cs.foldl String.push acc).toList = acc.toList ++ cs := by
    induction cs generalizing acc with
    | nil => simp
    | cons c cs ih => rw [List.foldl_cons, ih, String.toList_push, List.append_assoc]; rfl
  have hquoted (acc : String) (cs : List Char) :
      (cs.foldl (fun acc c => (quotedChar c).foldl String.push acc) acc).toList =
        acc.toList ++ cs.flatMap quotedChar := by
    induction cs generalizing acc with
    | nil => simp
    | cons c cs ih => rw [List.foldl_cons, ih, hpush, List.append_assoc, List.flatMap_cons]
  rw [quote, String.foldl_eq_foldl_toList, String.toList_push, hquoted]
  rfl

end ProcedureChart.Json
