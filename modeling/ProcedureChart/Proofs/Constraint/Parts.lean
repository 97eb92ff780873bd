import Mathlib.Data.List.DropRight
import ProcedureChart.Proofs.Constraint.Outside

/-!
# The parts of a text

A text is split exactly: with the doubled mark between them and the blanks that were around them,
the parts are the text again, and no doubled mark stands outside in a part that is looked at on its
own (`exact_split`). For the latter, the nesting at the beginning of a part is what it is at the
beginning of a text, since the mark in front of it stands outside; parentheses and quotes that do
not match make no difference to that.

Several parts are shorter than the text, so reading the conditions of a text calls itself no deeper
than the text is long (`parseWithin_eq_some`).
-/

namespace ProcedureChart.Constraint

variable {mark c : Char} {cs part : List Char} {parts : List (List Char)} {s : Nesting}

/-! ### Blanks around a text -/

/-- A text is what is left of it without the blanks around it, between these blanks. -/
theorem exists_eq_append_trim (cs : List Char) :
    ∃ front back, front.all Text.isBlank ∧ back.all Text.isBlank ∧
      cs = front ++ (Text.trim cs ++ back) := by
  obtain ⟨back, hback⟩ : Text.trim cs <+: Text.trimFront cs := List.rdropWhile_prefix _ _
  refine ⟨cs.takeWhile Text.isBlank, back, List.all_takeWhile, ?_, ?_⟩
  · have hreverse := List.takeWhile_append_dropWhile (p := Text.isBlank)
      (l := (Text.trimFront cs).reverse)
    rw [← List.reverse_inj, List.reverse_append, List.reverse_reverse] at hreverse
    have hsame := List.append_cancel_left (hback.trans hreverse.symm)
    rw [hsame, List.all_reverse]
    exact List.all_takeWhile
  · rw [hback]
    exact List.takeWhile_append_dropWhile.symm

theorem trim_trim (cs : List Char) : Text.trim (Text.trim cs) = Text.trim cs := by
  have hfront : Text.trimFront (Text.trim cs) = Text.trim cs := by
    have hbegin : Text.trim cs <+: Text.trimFront cs := List.rdropWhile_prefix _ _
    cases htrim : Text.trim cs with
    | nil => rfl
    | cons c rest =>
      -- what is left begins with the first character that is no blank
      obtain ⟨back, hback⟩ := htrim ▸ hbegin
      refine List.dropWhile_cons_of_neg fun hc => ?_
      have hhead := List.head?_dropWhile_not Text.isBlank cs
      rw [← Text.trimFront, ← hback, List.cons_append, List.head?_cons] at hhead
      exact Bool.false_ne_true (hhead.symm.trans hc)
  have hback : Text.trimBack (Text.trim cs) = Text.trim cs := List.rdropWhile_idempotent _ _
  rw [Text.trim, hfront, hback]

/-! ### Whole texts -/

/-- Whether the doubled mark stands nowhere outside in a text that begins at a nesting. -/
def Whole (mark : Char) (s : Nesting) (cs : List Char) : Prop :=
  ∀ front back, cs = front ++ mark :: mark :: back →
    (front.foldl .step s).outside mark = false

theorem whole_nil : Whole mark s [] := fun _ _ h =>
  absurd h.symm (List.append_ne_nil_of_right_ne_nil _ (List.cons_ne_nil _ _))

/-- A text in parts: a part has no mark outside exactly if no mark begins at its first character,
and none in the rest. -/
theorem whole_cons : Whole mark s (c :: cs) ↔
    ¬(s.outside c ∧ c = mark ∧ cs.head? = some mark) ∧ Whole mark (s.step c) cs := by
  constructor
  · intro h
    refine ⟨?_, fun front back hcs => h (c :: front) back (congrArg (c :: ·) hcs)⟩
    rintro ⟨houtside, rfl, hhead⟩
    obtain ⟨back, rfl⟩ := List.head?_eq_some_iff.1 hhead
    exact Bool.false_ne_true ((h [] back rfl).symm.trans houtside)
  · rintro ⟨hfirst, hrest⟩ front back hcs
    cases front with
    | nil =>
      obtain ⟨rfl, rfl⟩ := List.cons.inj hcs
      exact Bool.eq_false_iff.2 fun houtside => hfirst ⟨houtside, rfl, rfl⟩
    | cons c' front =>
      obtain ⟨rfl, rfl⟩ := List.cons.inj hcs
      exact hrest front back rfl

/-- A whole text is not split. -/
theorem splitFrom_of_whole (h : Whole mark s cs) : splitFrom mark s cs = [cs] := by
  fun_induction splitFrom mark s cs with
  | case1 | case2 => rfl
  | case3 s c c' cs hmark =>
    exact absurd ⟨hmark.1, hmark.2.1, congrArg some hmark.2.2⟩ (whole_cons.1 h).1
  | case4 s c c' cs _ ih => rw [ih (whole_cons.1 h).2, glue]

/-- A whole text is whole without the blanks around it, too. -/
theorem Whole.trim (h : Whole mark {} cs) : Whole mark {} (Text.trim cs) := by
  obtain ⟨before, behind, hbefore, -, hcs⟩ := exists_eq_append_trim cs
  have hstep : before.foldl Nesting.step {} = {} :=
    foldl_step_of_flat (all_isFlat_of_all_isBlank hbefore)
  intro front back htrim
  have houtside := h (before ++ front) (back ++ behind)
    (by rw [htrim] at hcs; simpa [List.append_assoc] using hcs)
  rwa [List.foldl_append, hstep] at houtside

/-! ### Splitting -/

theorem intercalate_glue {separator : List Char} (h : parts ≠ []) :
    separator.intercalate (glue c parts) = c :: separator.intercalate parts := by
  obtain ⟨part, parts, rfl⟩ := List.exists_cons_of_ne_nil h
  cases parts with
  | nil => rw [glue, List.intercalate_singleton, List.intercalate_singleton]
  | cons => rw [glue, List.intercalate_cons_cons, List.intercalate_cons_cons]; rfl

/-- The parts with the doubled mark between them are the text. -/
theorem intercalate_splitFrom (mark : Char) (s : Nesting) (cs : List Char) :
    [mark, mark].intercalate (splitFrom mark s cs) = cs := by
  fun_induction splitFrom mark s cs with
  | case1 | case2 => exact List.intercalate_singleton
  | case3 s c c' cs hmark ih =>
    obtain ⟨-, rfl, rfl⟩ := hmark
    rw [List.intercalate_cons_of_ne_nil (splitFrom_ne_nil _ _ _), ih]
    rfl
  | case4 s c c' cs _ ih => rw [intercalate_glue (splitFrom_ne_nil _ _ _), ih]

/-- The first part is at the front. -/
theorem prefix_of_splitFrom (h : splitFrom mark s cs = part :: parts) : part <+: cs := by
  rw [← intercalate_splitFrom mark s cs, h]
  cases parts with
  | nil => simp only [List.intercalate_singleton, List.prefix_rfl]
  | cons =>
    rw [List.intercalate_cons_cons, List.append_assoc]
    exact List.prefix_append _ _

/-- A mark that stands outside leaves the nesting as it is at the beginning of a text. -/
theorem eq_of_outside (hmark : isFlat mark) (h : s.outside mark) : s = {} := by
  obtain ⟨depth, quote⟩ := s
  simp only [Nesting.outside, Bool.and_eq_true, Option.isNone_iff_eq_none] at h
  obtain ⟨⟨⟨rfl, -⟩, hdepth⟩, -⟩ := h
  rw [step_of_isFlat hmark, beq_iff_eq] at hdepth
  exact congrArg (Nesting.mk · none) hdepth

/-- No doubled mark stands outside in a part: in the first one from the nesting that the text begins
at, in the other ones from that of a new text. -/
theorem whole_of_splitFrom (hmark : isFlat mark) (h : splitFrom mark s cs = part :: parts) :
    Whole mark s part ∧ ∀ p ∈ parts, Whole mark {} p := by
  fun_induction splitFrom mark s cs generalizing part parts with
  | case1 =>
    obtain ⟨rfl, rfl⟩ := List.cons.inj h
    exact ⟨whole_nil, List.forall_mem_nil _⟩
  | case2 s c =>
    obtain ⟨rfl, rfl⟩ := List.cons.inj h
    exact ⟨whole_cons.2 ⟨fun h => Option.some_ne_none _ h.2.2.symm, whole_nil⟩,
      List.forall_mem_nil _⟩
  | case3 s c c' cs hdoubled ih =>
    obtain ⟨rfl, rfl⟩ := List.cons.inj h
    obtain ⟨houtside, rfl, -⟩ := hdoubled
    obtain rfl := eq_of_outside hmark houtside
    obtain ⟨first, more, hsplit⟩ := List.exists_cons_of_ne_nil (splitFrom_ne_nil c {} cs)
    obtain ⟨hfirst, hmore⟩ := ih hsplit
    rw [hsplit]
    exact ⟨whole_nil, List.forall_mem_cons.2 ⟨hfirst, hmore⟩⟩
  | case4 s c c' cs hsingle ih =>
    obtain ⟨first, more, hsplit⟩ :=
      List.exists_cons_of_ne_nil (splitFrom_ne_nil mark (s.step c) (c' :: cs))
    rw [hsplit, glue] at h
    obtain ⟨rfl, rfl⟩ := List.cons.inj h
    obtain ⟨hfirst, hmore⟩ := ih hsplit
    refine ⟨whole_cons.2 ⟨?_, hfirst⟩, hmore⟩
    -- a mark at the front of the rest of the part is the one behind it in the text
    rintro ⟨houtside, hc, hhead⟩
    obtain ⟨back, rfl⟩ := List.head?_eq_some_iff.1 hhead
    exact hsingle ⟨houtside, hc, (List.cons_prefix_cons.1 (prefix_of_splitFrom hsplit)).1.symm⟩

theorem whole_of_mem_split (hmark : isFlat mark) (h : part ∈ split mark cs) :
    Whole mark {} part := by
  obtain ⟨whole, hwhole, rfl⟩ := List.mem_map.1 h
  obtain ⟨first, more, hsplit⟩ := List.exists_cons_of_ne_nil (splitFrom_ne_nil mark {} cs)
  obtain ⟨hfirst, hmore⟩ := whole_of_splitFrom hmark hsplit
  rw [hsplit] at hwhole
  exact (List.forall_mem_cons.2 ⟨hfirst, hmore⟩ whole hwhole).trim

/-- A part is not split again. -/
theorem split_of_mem_split (hmark : isFlat mark) (h : part ∈ split mark cs) :
    split mark part = [part] := by
  have htrim : Text.trim part = part := by
    obtain ⟨whole, -, rfl⟩ := List.mem_map.1 h
    exact trim_trim whole
  rw [split, splitFrom_of_whole (whole_of_mem_split hmark h), List.map_singleton, htrim]

/-! ### The depth of reading -/

/-- The conditions found in a text, if that takes no more than a number of calls inside of each
other. -/
def parseWithin : Nat → List Char → Option Parsed
  | 0, _ => none
  | depth + 1, cs =>
    let text := stripParens (Text.trim cs)
    match (truthOf? text).or (singleOf? text) with
    | some k => some ⟨[k], true⟩
    | none =>
      if 1 < (split '&' text).length then
        ((split '&' text).mapM (parseWithin depth)).map .conjunction
      else if 1 < (split '|' text).length then
        ((split '|' text).mapM (parseWithin depth)).map .disjunction
      else some {}

theorem mapM_eq_some_map {α β : Type} {f : α → Option β} {g : α → β} {l : List α}
    (h : ∀ a ∈ l, f a = some (g a)) : l.mapM f = some (l.map g) := by
  induction l with
  | nil => rfl
  | cons a l ih =>
    obtain ⟨ha, hl⟩ := List.forall_mem_cons.1 h
    rw [List.mapM_cons, ha, ih hl]
    rfl

/-- Reading a text calls itself no deeper than the text is long. It calls itself on parts, only
where there are several of them, and each of several parts is shorter than the whole. -/
theorem parseWithin_eq_some {depth : Nat} (h : cs.length < depth) :
    parseWithin depth cs = some (parseChars cs) := by
  induction depth generalizing cs with
  | zero => exact absurd h (Nat.not_lt_zero _)
  | succ depth ih =>
    have hparts {mark : Char} (hseveral : 1 < (split mark (stripParens (Text.trim cs))).length) :
        (split mark (stripParens (Text.trim cs))).mapM (parseWithin depth) =
          some ((split mark (stripParens (Text.trim cs))).map parseChars) := by
      refine mapM_eq_some_map fun part hpart => ih ?_
      have hlt := length_lt_of_mem_split hpart hseveral
      have hle := length_strip_trim_le cs
      omega
    rw [parseWithin, parseChars]
    cases (truthOf? (stripParens (Text.trim cs))).or (singleOf? (stripParens (Text.trim cs))) with
    | some k => rfl
    | none =>
      dsimp only
      by_cases hand : 1 < (split '&' (stripParens (Text.trim cs))).length
      · rw [if_pos hand, dif_pos hand, hparts hand, List.attach_map_val]
        rfl
      · rw [if_neg hand, dif_neg hand]
        by_cases hor : 1 < (split '|' (stripParens (Text.trim cs))).length
        · rw [if_pos hor, dif_pos hor, hparts hor, List.attach_map_val]
          rfl
        · rw [if_neg hor, dif_neg hor]

/-! ### Exact parts -/

/-- What makes parts the exact ones of a text between the doubled marks that stand outside. -/
structure Exact (mark : Char) (cs : List Char) (parts : List (List Char)) : Prop where
  /-- with the blanks that were around them, the parts are put together to the text -/
  joined : ∃ whole, parts = whole.map Text.trim ∧ [mark, mark].intercalate whole = cs
  whole : ∀ part ∈ parts, Whole mark {} part
  single : ∀ part ∈ parts, split mark part = [part]
  shorter : 1 < parts.length → ∀ part ∈ parts, part.length < cs.length

theorem exact_of_isFlat (hmark : isFlat mark) (cs : List Char) : Exact mark cs (split mark cs) where
  joined := ⟨splitFrom mark {} cs, rfl, intercalate_splitFrom mark {} cs⟩
  whole _ hpart := whole_of_mem_split hmark hpart
  single _ hpart := split_of_mem_split hmark hpart
  shorter hseveral _ hpart := length_lt_of_mem_split hpart hseveral

/-- **Splitting is exact**, for conjunctions and for disjunctions, whatever parentheses and quotes a
text has. Reading the conditions of a text, which goes on with its parts, ends: a text of `n`
characters takes at most `n + 1` calls inside of each other. -/
theorem exact_split (cs : List Char) :
    Exact '&' cs (split '&' cs) ∧ Exact '|' cs (split '|' cs) ∧
      parseWithin (cs.length + 1) cs = some (parseChars cs) :=
  ⟨exact_of_isFlat (by decide) cs, exact_of_isFlat (by decide) cs,
    parseWithin_eq_some (Nat.lt_succ_self _)⟩

end ProcedureChart.Constraint
