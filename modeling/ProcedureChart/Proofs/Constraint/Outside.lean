import Mathlib.Data.List.Forall2
import ProcedureChart.Constraint.Parser
import ProcedureChart.Proofs.Expr.Balance

/-!
# Cutting texts and cutting tokens

Constraints are found in the characters of a text, without its tokens. In a plainly written text
both see the same parentheses and the same doubled marks outside of them, so a text is split where
its tokens are (`split_spelled`), and the parentheses taken off it are those around its tokens
(`strip_spelled`).
-/

namespace ProcedureChart.Constraint

open ProcedureChart.Expr (Token Mark Spelled Takes Shape cut Closes Stripped)

variable {mark c : Char} {m : Mark} {t : Token} {cs w r : List Char} {ts : List Token}
  {depth : Int} {operand : Bool} {s : Nesting}

/-! ### The nesting behind a token -/

/-- Whether a character has nothing to do with nesting. -/
def isFlat (c : Char) : Bool := !(['\'', '"', '(', ')'].contains c)

/-- A class of characters without quotes and parentheses. -/
theorem isFlat_of_class {p : Char → Bool} (hp : ['\'', '"', '(', ')'].all fun c => !p c)
    (h : p c) : isFlat c := by
  rw [isFlat, Bool.not_eq_true', List.contains_eq_mem, decide_eq_false_iff_not]
  intro hmem
  have hnot := List.all_eq_true.1 hp c hmem
  rw [h] at hnot
  cases hnot

/-- The characters of names and numbers have nothing to do with nesting, and nor do blanks. -/
theorem isFlat_of_isWordChar (h : Expr.isWordChar c) : isFlat c := isFlat_of_class (by decide) h

theorem isFlat_of_isBlank (h : Text.isBlank c) : isFlat c := isFlat_of_class (by decide) h

theorem all_isFlat_of_all_isBlank (h : cs.all Text.isBlank) : cs.all isFlat :=
  List.all_eq_true.2 fun c hc => isFlat_of_isBlank (List.all_eq_true.1 h c hc)

/-- Outside of quotes, such a character leaves the nesting as it is, at whatever depth. -/
theorem step_of_isFlat (h : isFlat c) : Nesting.step ⟨depth, none⟩ c = ⟨depth, none⟩ := by
  simp only [isFlat, Bool.not_eq_true', List.contains_eq_mem, decide_eq_false_iff_not,
    List.mem_cons, not_or] at h
  obtain ⟨hsingle, hdouble, hopen, hclose, -⟩ := h
  rw [Nesting.step]
  dsimp only
  rw [Nesting.isQuote, beq_false_of_ne hsingle, beq_false_of_ne hdouble, Bool.or_false,
    if_neg Bool.false_ne_true, if_neg hopen, if_neg hclose]

/-- So does a text of such characters. -/
theorem foldl_step_of_flat (h : w.all isFlat) :
    w.foldl Nesting.step ⟨depth, none⟩ = ⟨depth, none⟩ := by
  induction w with
  | nil => rfl
  | cons c w ih =>
    rw [List.all_cons, Bool.and_eq_true] at h
    rw [List.foldl_cons, step_of_isFlat h.1, ih h.2]

/-- A quote opens a text that ends with the same quote. -/
theorem step_of_quote {quote : Char} (h : quote = '\'' ∨ quote = '"') :
    Nesting.step ⟨depth, none⟩ quote = ⟨depth, some quote⟩ := by
  rcases h with rfl | rfl <;> rfl

/-- In quotes nothing counts but the quote that closes them, parentheses and the other quote
included. -/
theorem step_of_quoted {quote : Char} (h : c ≠ quote) :
    Nesting.step ⟨depth, some quote⟩ c = ⟨depth, some quote⟩ :=
  if_neg h

/-- What is held in quotes leaves the nesting as it is, since its own quote is not in it. -/
theorem foldl_step_of_quoted {quote : Char} {held : List Char} (h : quote ∉ held) :
    held.foldl Nesting.step ⟨depth, some quote⟩ = ⟨depth, some quote⟩ := by
  induction held with
  | nil => rfl
  | cons c held ih =>
    rw [List.foldl_cons, step_of_quoted (List.ne_of_not_mem_cons h).symm,
      ih (List.not_mem_of_not_mem_cons h)]

/-- Behind a token one is as deep inside of parentheses as the token leads, and in no quotes. So the
characters of a text and its tokens can be followed side by side. -/
theorem foldl_step_of_shape (h : Shape t w) :
    w.foldl Nesting.step ⟨depth, none⟩ = ⟨depth + t.turn, none⟩ := by
  cases h with
  | word hturn _ _ hall =>
    rw [hturn, Int.add_zero]
    exact foldl_step_of_flat (List.all_eq_true.2 fun c hc =>
      isFlat_of_isWordChar (List.all_eq_true.1 hall c hc))
  | @text quote held hquote hheld _ _ =>
    have hclose : Nesting.step ⟨depth, some quote⟩ quote = ⟨depth, none⟩ := if_pos rfl
    rw [List.foldl_cons, List.foldl_append, step_of_quote hquote, foldl_step_of_quoted hheld,
      List.foldl_cons, hclose]
    exact congrArg (Nesting.mk · none) (Int.add_zero depth).symm
  | @mark m =>
    cases m with
    | openParen | closeParen => rfl
    | _ =>
      exact (foldl_step_of_flat (by decide)).trans
        (congrArg (Nesting.mk · none) (Int.add_zero depth).symm)

/-! ### Marks outside -/

/-- The character of a doubled mark. -/
inductive Doubled : Char → Mark → Prop where
  | and : Doubled '&' .and
  | or : Doubled '|' .or

/-- Whether a mark is nowhere outside in a text that begins at a nesting. -/
def Quiet (mark : Char) (s : Nesting) : List Char → Prop
  | [] => True
  | c :: cs => ¬(s.outside c ∧ c = mark) ∧ Quiet mark (s.step c) cs

/-- A mark that does not stand in a text does not stand outside in it. -/
theorem quiet_of_not_mem (h : mark ∉ w) : Quiet mark s w := by
  induction w generalizing s with
  | nil => exact trivial
  | cons c w ih =>
    exact ⟨fun h' => List.ne_of_not_mem_cons h h'.2.symm, ih (List.not_mem_of_not_mem_cons h)⟩

/-- For two texts one behind the other, the second one begins at the nesting that the first one
leaves. -/
theorem quiet_append : Quiet mark s (w ++ r) ↔ Quiet mark s w ∧ Quiet mark (w.foldl .step s) r := by
  induction w generalizing s with
  | nil => exact (true_and _).to_iff.symm
  | cons c w ih => rw [List.cons_append, Quiet, Quiet, ih, and_assoc, List.foldl_cons]

/-- Nothing that stands in quotes stands outside. -/
theorem quiet_of_quoted {quote : Char} {held : List Char} (h : quote ∉ held) :
    Quiet mark ⟨depth, some quote⟩ held := by
  induction held with
  | nil => exact trivial
  | cons c held ih =>
    refine ⟨fun h => Bool.false_ne_true h.1, ?_⟩
    rw [step_of_quoted (List.ne_of_not_mem_cons h).symm]
    exact ih (List.not_mem_of_not_mem_cons h)

/-- A token other than the doubled mark outside does not hold it outside: no word and no other mark
has it, and a text has it between quotes. -/
theorem quiet_of_shape (hm : Doubled mark m) (h : Shape t w) (hne : ¬(depth = 0 ∧ t = .mark m)) :
    Quiet mark ⟨depth, none⟩ w := by
  cases h with
  | word _ _ _ hall =>
    refine quiet_of_not_mem fun hmem => ?_
    have hword := List.all_eq_true.1 hall mark hmem
    cases hm <;> exact Bool.false_ne_true ((by decide : _ = false).symm.trans hword)
  | @text quote held hquote hheld _ _ =>
    refine ⟨fun h => ?_, ?_⟩
    · obtain ⟨-, rfl⟩ := h
      rcases hquote with rfl | rfl <;> cases hm
    · rw [step_of_quote hquote]
      refine quiet_append.2 ⟨quiet_of_quoted hheld, ?_⟩
      rw [foldl_step_of_quoted hheld]
      exact ⟨fun h => Bool.false_ne_true h.1, trivial⟩
  | @mark m' =>
    rcases eq_or_ne m' m with rfl | hne'
    · have hdepth : depth ≠ 0 := fun h => hne ⟨h, rfl⟩
      have houtside : Nesting.outside ⟨depth, none⟩ mark = false := by
        cases hm <;> exact Bool.and_eq_false_iff.2 (.inl (beq_false_of_ne hdepth))
      have hquiet : ¬(Nesting.outside ⟨depth, none⟩ mark ∧ mark = mark) := fun h =>
        Bool.false_ne_true (houtside.symm.trans h.1)
      cases hm <;> exact ⟨hquiet, hquiet, trivial⟩
    · refine quiet_of_not_mem ?_
      revert hne'
      cases hm <;> cases m' <;> decide

/-! ### Splitting -/

/-- A character that is not the first one of a mark outside becomes part of the first part. -/
theorem splitFrom_cons (h : ¬(s.outside c ∧ c = mark)) :
    splitFrom mark s (c :: cs) = (splitFrom mark (s.step c) cs).modifyHead (c :: ·) := by
  cases cs with
  | nil => rfl
  | cons c' cs =>
    rw [splitFrom, if_neg fun h' => h ⟨h'.1, h'.2.1⟩]
    obtain ⟨part, parts, hsplit⟩ :=
      List.exists_cons_of_ne_nil (splitFrom_ne_nil mark (s.step c) (c' :: cs))
    rw [hsplit]
    rfl

/-- A text without the mark outside becomes part of the first part as a whole. -/
theorem splitFrom_append (h : Quiet mark s w) :
    splitFrom mark s (w ++ r) = (splitFrom mark (w.foldl .step s) r).modifyHead (w ++ ·) := by
  induction w generalizing s with
  | nil => exact List.modifyHead_id.symm ▸ rfl
  | cons c w ih =>
    rw [List.cons_append, splitFrom_cons h.1, ih h.2, List.modifyHead_modifyHead]
    rfl

/-- A text is split where its tokens are. The parts and the runs of tokens come in the same number,
and each run is what its part spells. -/
theorem splitFrom_spelled (hm : Doubled mark m) (h : Spelled operand cs ts) (depth : Int) :
    ∃ part parts us uss, splitFrom mark ⟨depth, none⟩ cs = part :: parts ∧
      cut m depth ts = us :: uss ∧ part <+: cs ∧ Spelled operand part us ∧
      List.Forall₂ (Spelled false) parts uss := by
  induction h generalizing depth with
  | nil => exact ⟨[], [], [], [], rfl, rfl, List.prefix_rfl, .nil, .nil⟩
  | @blank operand c cs ts hc _ ih =>
    obtain ⟨part, parts, us, uss, hsplit, hcut, hbegin, hpart, hparts⟩ := ih depth
    have hne : c ≠ mark := by
      rintro rfl
      cases hm <;> cases hc
    refine ⟨c :: part, parts, us, uss, ?_, hcut, List.cons_prefix_cons.2 ⟨rfl, hbegin⟩,
      .blank hc hpart, hparts⟩
    rw [splitFrom_cons fun h => hne h.2, step_of_isFlat (isFlat_of_isBlank hc), hsplit]
    rfl
  | @token operand t w r ts hw ht _ ih =>
    by_cases hmark : depth = 0 ∧ t = .mark m
    · obtain ⟨rfl, rfl⟩ := hmark
      obtain ⟨part, parts, us, uss, hsplit, hcut, -, hpart, hparts⟩ := ih 0
      obtain rfl : w = m.spelling := by
        cases ht
        rfl
      refine ⟨[], part :: parts, [], us :: uss, ?_, ?_, List.nil_prefix, .nil, .cons ?_ hparts⟩
      · rw [← hsplit]
        cases hm <;> exact if_pos ⟨rfl, rfl, rfl⟩
      · rw [cut, if_pos ⟨rfl, rfl⟩, hcut]
      · cases hm <;> exact hpart
    · obtain ⟨part, parts, us, uss, hsplit, hcut, hbegin, hpart, hparts⟩ := ih (depth + t.turn)
      refine ⟨w ++ part, parts, t :: us, uss, ?_, ?_, List.prefix_append_right_inj _ |>.2 hbegin,
        .token hw (ht.mono hbegin) hpart, hparts⟩
      · rw [splitFrom_append (quiet_of_shape hm ht.shape hmark), foldl_step_of_shape ht.shape,
          hsplit]
        rfl
      · rw [cut, if_neg hmark, hcut]
        rfl

/-- A text is split where its tokens are. -/
theorem split_spelled (hm : Doubled mark m) (h : Spelled false cs ts) :
    List.Forall₂ (Spelled false) (split mark cs) (cut m 0 ts) := by
  obtain ⟨part, parts, us, uss, hsplit, hcut, -, hpart, hparts⟩ := splitFrom_spelled hm h 0
  rw [split, hsplit, hcut, List.forall₂_map_left_iff]
  exact .cons hpart.trim (hparts.imp fun _ _ => Spelled.trim)

/-! ### Outer parentheses -/

/-- Texts without parentheses are passed over in the search for the one that closes. -/
theorem closesAtEnd_append {n : Nat} (h : ∀ c ∈ w, c ≠ '(' ∧ c ≠ ')') :
    closesAtEnd n (w ++ r) = closesAtEnd n r := by
  induction w with
  | nil => rfl
  | cons c w ih =>
    obtain ⟨hopen, hclose⟩ := h c List.mem_cons_self
    rw [List.cons_append, closesAtEnd, if_neg hopen, if_neg hclose]
    exact ih fun c hc => h c (List.mem_cons_of_mem _ hc)

/-- A character that has nothing to do with nesting is no parenthesis. -/
theorem parens_of_isFlat (h : isFlat c) : c ≠ '(' ∧ c ≠ ')' := by
  constructor <;> (rintro rfl; cases h)

/-- Only parentheses have parentheses among their characters. A text in quotes could have some,
which is why its shape excludes them. -/
theorem parens_of_shape (h : Shape t w) (hturn : t.turn = 0) : ∀ c ∈ w, c ≠ '(' ∧ c ≠ ')' := by
  intro c hc
  cases h with
  | word _ _ _ hall => exact parens_of_isFlat (isFlat_of_isWordChar (List.all_eq_true.1 hall c hc))
  | @text quote held hquote _ hopen hclose =>
    rw [← List.cons_append, List.mem_append, List.mem_cons, List.mem_singleton] at hc
    have hquote : quote ≠ '(' ∧ quote ≠ ')' := by rcases hquote with rfl | rfl <;> decide
    rcases hc with (rfl | hc) | rfl
    · exact hquote
    · exact ⟨fun h => hopen (h ▸ hc), fun h => hclose (h ▸ hc)⟩
    · exact hquote
  | @mark m =>
    have hmark : m.spelling.all fun c => c ≠ '(' ∧ c ≠ ')' := by
      cases m <;> first | decide | cases hturn
    exact of_decide_eq_true (List.all_eq_true.1 hmark c hc)

/-- A token leads nowhere, or it is one of the two parentheses. -/
theorem turn_cases (t : Token) :
    t.turn = 0 ∨ t = .mark .openParen ∨ t = .mark .closeParen := by
  cases t with
  | mark m => cases m <;> decide
  | _ => exact .inl rfl

/-- The parenthesis that closes at the end is the last character. -/
theorem getLast?_of_closesAtEnd {n : Nat} (h : closesAtEnd n cs) : cs.getLast? = some ')' := by
  fun_induction closesAtEnd n cs with
  | case1 => cases h
  | case2 _ _ ih | case4 _ _ _ _ ih | case5 _ _ _ _ _ ih => rw [List.getLast?_cons, ih h]; rfl
  | case3 _ cs =>
    obtain rfl := List.isEmpty_iff.1 h
    rfl

/-- The parenthesis that closes at the end of a text is the last of its tokens, and it is closed
there when the tokens are counted as well. -/
theorem closes_spelled {n : Nat} (h : Spelled operand cs ts) (hn : 0 < n)
    (hclose : closesAtEnd n cs) : Closes n ts := by
  induction h generalizing n with
  | nil => cases hclose
  | @blank operand c cs ts hc _ ih =>
    obtain ⟨hopen, hclosing⟩ := parens_of_isFlat (isFlat_of_isBlank hc)
    rw [closesAtEnd, if_neg hopen, if_neg hclosing] at hclose
    exact ih hn hclose
  | @token operand t w r ts hw ht hr ih =>
    rw [Closes]
    rcases turn_cases t with hturn | rfl | rfl
    · rw [closesAtEnd_append (parens_of_shape ht.shape hturn)] at hclose
      rw [hturn, Int.add_zero, if_neg (by omega)]
      exact ih hn hclose
    · obtain rfl : w = ['('] := by
        cases ht
        rfl
      rw [if_neg (by simp only [Token.turn]; omega)]
      exact ih (Nat.succ_pos n) hclose
    · obtain rfl : w = [')'] := by
        cases ht
        rfl
      rw [List.singleton_append, closesAtEnd, if_neg (by decide), if_pos rfl] at hclose
      split at hclose
      · obtain rfl := List.isEmpty_iff.1 hclose
        rw [hr.eq_nil, if_pos (by simp only [Token.turn]; omega)]
      · next hone =>
        have h := ih (Nat.sub_pos_of_lt (Nat.lt_of_not_le hone)) hclose
        rw [Int.ofNat_sub (by omega)] at h
        rw [if_neg (by simp only [Token.turn]; omega)]
        exact h

/-- A parenthesis at the front of a text is the first of its tokens. -/
theorem spelled_of_open (h : Spelled operand ('(' :: cs) ts) :
    ∃ us, ts = .mark .openParen :: us ∧ Spelled false cs us :=
  Spelled.of_mark (m := .openParen) h
    (Mark.longest_of_head fun m' => by cases m' <;> decide) nofun

/-- The parentheses taken off a text are those around its tokens. -/
theorem strip_spelled (h : Spelled false cs ts) :
    ∃ us, Spelled false (stripParens cs) us ∧ Stripped ts us := by
  fun_induction stripParens cs generalizing ts with
  | case1 rest hclose ih =>
    obtain ⟨us, rfl, hrest⟩ := spelled_of_open h
    have hcloses := closes_spelled hrest Nat.one_pos hclose
    obtain ⟨inside, rfl⟩ := List.getLast?_eq_some_iff.1 (getLast?_of_closesAtEnd hclose)
    obtain ⟨us, hinside, rfl⟩ := hrest.concat (.inr rfl)
    rw [List.dropLast_concat] at ih ⊢
    obtain ⟨vs, hvs, hstripped⟩ := ih hinside.trim
    exact ⟨vs, hvs, .parens hcloses hstripped⟩
  | case2 => exact ⟨ts, h, .refl ts⟩
  | case3 => exact ⟨ts, h, .refl ts⟩

end ProcedureChart.Constraint
