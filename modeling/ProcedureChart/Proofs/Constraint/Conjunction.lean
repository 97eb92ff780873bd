import ProcedureChart.Proofs.Constraint.Atoms

/-!
# Reading conjunctions

The text of a layout is read completely, and as the constraints of its atoms from left to right
(`Layout.parse_text`). The text is split into the operands of its conjunctions, which are atoms and
groups; what is in the parentheses of a group is a layout again. Inside of parentheses no
conjunction is seen, and the parentheses in front of a conjunction do not reach around it, so they
are left where they are.
-/

namespace ProcedureChart.Constraint

variable {cs v w r : List Char}

/-! ### Nested texts -/

/-- Whether the parentheses in a text belong together, so that no conjunction in it is seen inside
of more parentheses. -/
structure Nested (w : List Char) : Prop where
  step (depth : Int) : w.foldl Nesting.step ⟨depth, none⟩ = ⟨depth, none⟩
  quiet_and (depth : Int) : 0 < depth → Quiet '&' ⟨depth, none⟩ w
  closes (n : Nat) (r : List Char) : 0 < n → closesAtEnd n (w ++ r) = closesAtEnd n r

theorem Inert.nested (h : Inert ['&', '|'] w) : Nested w where
  step := h.step
  quiet_and depth _ := h.quiet depth '&' (by decide)
  closes _ _ _ := closesAtEnd_append h.parens

theorem Nested.append (hv : Nested v) (hw : Nested w) : Nested (v ++ w) where
  step depth := by rw [List.foldl_append, hv.step, hw.step]
  quiet_and depth hdepth := by
    rw [quiet_append, hv.step]
    exact ⟨hv.quiet_and depth hdepth, hw.quiet_and depth hdepth⟩
  closes n r hn := by rw [List.append_assoc, hv.closes n _ hn, hw.closes n r hn]

/-- A text in parentheses has no conjunctions outside. -/
theorem Nested.quiet_parens {mark : Char} {depth : Int} (hmark : mark ∉ ['(', ')'])
    (hstep : w.foldl Nesting.step ⟨depth + 1, none⟩ = ⟨depth + 1, none⟩)
    (hw : Quiet mark ⟨depth + 1, none⟩ w) : Quiet mark ⟨depth, none⟩ ('(' :: (w ++ [')'])) := by
  rw [List.mem_cons, List.mem_singleton, not_or] at hmark
  have hopen : Nesting.step ⟨depth, none⟩ '(' = ⟨depth + 1, none⟩ := rfl
  rw [Quiet, hopen, quiet_append, hstep]
  exact ⟨fun h => hmark.1 h.2.symm, hw, fun h => hmark.2 h.2.symm, trivial⟩

theorem Nested.parens (hw : Nested w) : Nested ('(' :: (w ++ [')'])) where
  step depth := by
    have hopen : Nesting.step ⟨depth, none⟩ '(' = ⟨depth + 1, none⟩ := rfl
    have hclose : Nesting.step ⟨depth + 1, none⟩ ')' = ⟨depth + 1 - 1, none⟩ := rfl
    rw [List.foldl_cons, List.foldl_append, hopen, hw.step, List.foldl_cons, hclose,
      Int.add_sub_cancel]
    rfl
  quiet_and depth hdepth := quiet_parens (by decide) (hw.step _) (hw.quiet_and _ (by omega))
  closes n r hn := by
    rw [List.cons_append, closesAtEnd, if_pos rfl, List.append_assoc, hw.closes _ _ (by omega),
      List.singleton_append, closesAtEnd, if_neg (by decide), if_pos rfl, if_neg (by omega),
      Nat.add_sub_cancel]

/-- Inside of parentheses a conjunction is not seen. -/
theorem nested_and : Nested ['&', '&'] where
  step _ := rfl
  quiet_and depth hdepth := by
    have houtside : Nesting.outside ⟨depth, none⟩ '&' = false :=
      Bool.and_eq_false_iff.2 (.inl (beq_false_of_ne (by exact (Int.ne_of_lt hdepth).symm)))
    have hquiet : ¬(Nesting.outside ⟨depth, none⟩ '&' ∧ '&' = '&') := fun h =>
      Bool.false_ne_true (houtside.symm.trans h.1)
    exact ⟨hquiet, hquiet, trivial⟩
  closes _ _ _ := rfl

theorem Blanks.nested (b : Blanks) : Nested b.1 := (b.inert.mono (by decide)).nested

namespace Layout

theorem nested (l : Layout) : Nested l.chars := by
  induction l with
  | atom a => exact a.inert.nested
  | group front inside back ih =>
    have h := (front.nested.append (ih.append back.nested)).parens
    rwa [List.append_assoc, List.append_assoc] at h
  | both left before behind right ihleft ihright =>
    exact ihleft.append (before.nested.append (nested_and.append (behind.nested.append ihright)))

theorem tight (l : Layout) : Tight l.chars := by
  induction l with
  | atom a => exact a.tight
  | group front inside back =>
    have hopen : Tight ['('] := tight_singleton (by decide)
    have hclose : Tight [')'] := tight_singleton (by decide)
    have h := hopen.around (front.1 ++ (inside.chars ++ back.1)) hclose
    rwa [List.append_assoc, List.append_assoc] at h
  | both left before behind right ihleft ihright =>
    have h := ihleft.around (before.1 ++ '&' :: '&' :: behind.1) ihright
    rwa [List.append_assoc] at h

/-! ### Splitting -/

/-- The operands of the conjunctions outside of parentheses. -/
def operands : Layout → List Layout
  | both left _ _ right => left.operands ++ right.operands
  | l => [l]

theorem operands_ne_nil (l : Layout) : l.operands ≠ [] := by
  induction l with
  | atom | group => exact List.cons_ne_nil _ _
  | both left _ _ _ ihleft => exact List.append_ne_nil_of_left_ne_nil ihleft _

theorem flatMap_operands (l : Layout) : l.operands.flatMap atoms = l.atoms := by
  induction l with
  | atom | group => exact List.append_nil _
  | both left _ _ right ihleft ihright =>
    rw [operands, List.flatMap_append, ihleft, ihright, atoms]

end Layout

/-- A text with no conjunction outside ends where a conjunction begins. -/
theorem split_append (hstep : w.foldl Nesting.step {} = {}) (hw : Quiet '&' {} w) :
    split '&' (w ++ '&' :: '&' :: r) = Text.trim w :: split '&' r := by
  have hmark : splitFrom '&' {} ('&' :: '&' :: r) = [] :: splitFrom '&' {} r := if_pos (by decide)
  rw [split, splitFrom_append hw, hstep, hmark, List.modifyHead_cons, List.append_nil]
  rfl

namespace Layout

/-- A layout that is a single operand, with blanks around it, is neither split nor left. -/
theorem padded {l : Layout} (hl : Quiet '&' {} l.chars) (front back : Blanks) :
    Quiet '&' {} (front.1 ++ (l.chars ++ back.1)) ∧
      (front.1 ++ (l.chars ++ back.1)).foldl Nesting.step {} = {} := by
  have hstep := (front.nested.append (l.nested.append back.nested)).step 0
  have hfront := front.inert.quiet 0 '&' (by decide)
  have hback := back.inert.quiet 0 '&' (by decide)
  refine ⟨?_, hstep⟩
  rw [quiet_append, front.nested.step, quiet_append, l.nested.step]
  exact ⟨hfront, hl, hback⟩

/-- Only a conjunction has several operands. -/
theorem quiet_and_of_operands {l : Layout} (h : l.operands = [l]) : Quiet '&' {} l.chars := by
  cases l with
  | atom a => exact a.inert.quiet 0 '&' (by decide)
  | group front inside back =>
    have h := front.nested.append (inside.nested.append back.nested)
    have hquiet : Quiet '&' {} ('(' :: (front.1 ++ (inside.chars ++ back.1) ++ [')'])) :=
      Nested.quiet_parens (by decide) (h.step 1) (h.quiet_and 1 (by decide))
    rwa [List.append_assoc, List.append_assoc] at hquiet
  | both left before behind right =>
    have hlength := congrArg List.length h
    have hleft := List.length_pos_iff.2 left.operands_ne_nil
    have hright := List.length_pos_iff.2 right.operands_ne_nil
    rw [operands, List.length_append, List.length_singleton] at hlength
    omega

/-- A layout with blanks around it is split into its operands, at its end or where a conjunction
goes on. -/
theorem split_chars (l : Layout) (front back : Blanks) :
    split '&' (front.1 ++ (l.chars ++ back.1)) = l.operands.map chars ∧
      ∀ r, split '&' (front.1 ++ (l.chars ++ (back.1 ++ '&' :: '&' :: r))) =
        l.operands.map chars ++ split '&' r := by
  have hsingle {l : Layout} (front back : Blanks) (h : l.operands = [l]) :
      split '&' (front.1 ++ (l.chars ++ back.1)) = l.operands.map chars ∧
        ∀ r, split '&' (front.1 ++ (l.chars ++ (back.1 ++ '&' :: '&' :: r))) =
          l.operands.map chars ++ split '&' r := by
    obtain ⟨hquiet, hstep⟩ := padded (quiet_and_of_operands h) front back
    have htrim := l.tight.trim_append front back
    refine ⟨?_, fun r => ?_⟩
    · rw [split_of_quiet hquiet, htrim, h, List.map_singleton]
    · have hsplit := split_append (r := r) hstep hquiet
      rw [List.append_assoc, List.append_assoc, htrim] at hsplit
      rw [hsplit, h, List.map_singleton, List.singleton_append]
  induction l generalizing front back with
  | atom | group => exact hsingle front back rfl
  | both left before behind right ihleft ihright =>
    simp only [chars, operands, List.append_assoc, List.cons_append, List.map_append]
    refine ⟨?_, fun r => ?_⟩
    · rw [(ihleft front before).2, (ihright behind back).1]
    · rw [(ihleft front before).2, (ihright behind back).2]

/-! ### Parentheses around a text -/

/-- The parentheses in front of a longer text do not reach around it, so they are left where they
are. The first one is closed where the group that it opens ends, and something follows. -/
theorem stripParens_append (l : Layout) (hr : r ≠ []) :
    stripParens (l.chars ++ r) = l.chars ++ r := by
  induction l generalizing r with
  | atom a =>
    refine stripParens_of_head? ?_
    rw [chars, List.head?_append_of_ne_nil _ a.tight.ne_nil]
    exact a.head?_ne
  | group front inside back =>
    have hinside := front.nested.append (inside.nested.append back.nested)
    have hclose : closesAtEnd 1 (front.1 ++ (inside.chars ++ (back.1 ++ [')'])) ++ r) = false := by
      have hcloses := hinside.closes 1 (')' :: r) Nat.one_pos
      simp only [List.append_assoc, List.singleton_append] at hcloses ⊢
      rw [hcloses, closesAtEnd, if_neg (by decide), if_pos rfl, if_pos (Nat.le_refl 1)]
      exact Bool.eq_false_iff.2 fun hempty => hr (List.isEmpty_iff.1 hempty)
    rw [chars, List.cons_append, stripParens, if_neg (Bool.eq_false_iff.1 hclose)]
  | both left before behind right ihleft _ =>
    rw [chars, List.append_assoc]
    exact ihleft (by simp)

/-- The parentheses of a group are taken off, and the blanks inside of them. -/
theorem stripParens_group (front : Blanks) (inside : Layout) (back : Blanks) :
    stripParens (group front inside back).chars = stripParens inside.chars := by
  have hinside := front.nested.append (inside.nested.append back.nested)
  have hclose : closesAtEnd 1 (front.1 ++ (inside.chars ++ (back.1 ++ [')']))) := by
    have hcloses := hinside.closes 1 [')'] Nat.one_pos
    rw [List.append_assoc, List.append_assoc] at hcloses
    rw [hcloses]
    rfl
  have hlast : (front.1 ++ (inside.chars ++ (back.1 ++ [')']))).dropLast =
      front.1 ++ (inside.chars ++ back.1) := by
    rw [← List.append_assoc, ← List.append_assoc, List.dropLast_concat, List.append_assoc]
  rw [chars, stripParens, if_pos hclose, hlast, inside.tight.trim_append]

/-! ### Parsing -/

theorem trim_chars (l : Layout) : Text.trim l.chars = l.chars := by
  have htrim := l.tight.trim_append ⟨[], rfl⟩ ⟨[], rfl⟩
  rwa [List.append_nil] at htrim

/-- What is read from a text depends on what is left of it without blanks and parentheses. -/
theorem parseChars_of_strip {ds : List Char}
    (h : stripParens (Text.trim cs) = stripParens (Text.trim ds)) :
    parseChars cs = parseChars ds := by
  rw [parseChars, parseChars, h]

/-- What is read from the text of a layout that means some atoms. -/
def Reads (l : Layout) : Prop := parseChars l.chars = ⟨l.atoms.map Atom.constraint, true⟩

theorem reads_atom (a : Atom) : (atom a).Reads := by
  have hstrip : stripParens (Text.trim (atom a).chars) = a.chars := by
    rw [trim_chars]
    exact stripParens_of_head? a.head?_ne
  rw [Reads, parseChars, hstrip, a.single]
  rfl

theorem reads_group {front back : Blanks} {inside : Layout} (h : inside.Reads) :
    (group front inside back).Reads := by
  have hstrip : stripParens (Text.trim (group front inside back).chars) =
      stripParens (Text.trim inside.chars) := by
    rw [trim_chars, trim_chars, stripParens_group]
  rw [Reads, parseChars_of_strip hstrip, h]
  rfl

/-- A conjunction is read as what its operands are read as. It is no single condition, since there
are at least two operands, and all of them are read completely. -/
theorem reads_both {left right : Layout} {before behind : Blanks}
    (h : ∀ o ∈ (both left before behind right).operands, o.Reads) :
    (both left before behind right).Reads := by
  generalize hl : both left before behind right = l at h ⊢
  have hstrip : stripParens (Text.trim l.chars) = l.chars := by
    rw [trim_chars, ← hl]
    exact stripParens_append left (by simp)
  have hsplit : split '&' l.chars = l.operands.map chars := by
    have hsplit := (l.split_chars ⟨[], rfl⟩ ⟨[], rfl⟩).1
    rwa [List.append_nil] at hsplit
  have hseveral : 1 < (split '&' l.chars).length := by
    have hleft := List.length_pos_iff.2 left.operands_ne_nil
    have hright := List.length_pos_iff.2 right.operands_ne_nil
    rw [hsplit, List.length_map, ← hl, operands, List.length_append]
    omega
  have htruth : truthOf? l.chars = none := by
    refine truthOf?_eq_none (c := '&') ?_ (by decide)
    rw [← hl]
    exact List.mem_append_right _ (List.mem_append_right _ List.mem_cons_self)
  have hparts : (split '&' l.chars).map parseChars =
      l.operands.map fun o => ⟨o.atoms.map Atom.constraint, true⟩ := by
    rw [hsplit, List.map_map]
    exact List.map_congr_left h
  rw [Reads, parseChars, hstrip, htruth, Option.none_or, singleOf?, if_pos (.inl hseveral)]
  dsimp only
  rw [dif_pos hseveral, List.attach_map_val, hparts, Parsed.conjunction, ← l.flatMap_operands,
    List.map_flatMap, List.flatMap_map, List.all_map]
  exact congrArg (Parsed.mk _) (List.all_eq_true.2 fun _ _ => rfl)

/-- The operands of a layout are read, and so is the layout. -/
theorem reads (l : Layout) : (∀ o ∈ l.operands, o.Reads) ∧ l.Reads := by
  induction l with
  | atom a =>
    have h := reads_atom a
    exact ⟨fun o ho => List.mem_singleton.1 ho ▸ h, h⟩
  | group front inside back ih =>
    have h : (group front inside back).Reads := reads_group ih.2
    exact ⟨fun o ho => List.mem_singleton.1 ho ▸ h, h⟩
  | both left before behind right ihleft ihright =>
    have h : ∀ o ∈ (both left before behind right).operands, o.Reads := fun o ho =>
      (List.mem_append.1 ho).elim (ihleft.1 o) (ihright.1 o)
    exact ⟨h, reads_both h⟩

/-- **The text of a layout is read as its atoms**, completely and from left to right. The induction
is on the layout: a conjunction is split at its own marks, each operand is trimmed and read by
itself, and the parentheses of a group come off before its inside is split again. -/
theorem parse_text (l : Layout) (front back : Blanks) :
    parse (l.text front back) = ⟨l.atoms.map Atom.constraint, true⟩ := by
  have hstrip : stripParens (Text.trim (front.1 ++ (l.chars ++ back.1))) =
      stripParens (Text.trim l.chars) := by
    rw [l.tight.trim_append, trim_chars]
  rw [parse, text, String.toList_ofList, parseChars_of_strip hstrip]
  exact l.reads.2

end Layout

end ProcedureChart.Constraint
