import ProcedureChart.Proofs.Json.Values

/-!
# Reading written values

A value is read back from the text that it is written as (`parse_render`), if it nests no deeper
than the reader goes and each of its numbers, written alone, is read back. How a number is written
is left open otherwise: what is known of a number's text is that the reader takes it for that
number, so blanks in it would do no harm, and everything here is said up to blanks.
-/

namespace ProcedureChart.Json

variable {cs rest left : List Char} {depth : Nat} {j : Json}

/-! ### The parts of a text -/

mutual

/-- The writer puts everything behind what is done already. This and the two lemmas beside it, which
go through items and fields, let a part be looked at without what was written before it. -/
theorem renderOnto_eq (done : String) : (j : Json) → renderOnto done j = done ++ renderOnto "" j
  | .null | .bool _ | .number _ | .text _ => by
    simp only [renderOnto, String.empty_append]
  | .list items => by
    rw [renderOnto, renderOnto, renderItems_eq (done ++ "["), String.empty_append,
      renderItems_eq "["]
    simp only [String.append_assoc]
  | .object fields => by
    rw [renderOnto, renderOnto, renderFields_eq (done ++ "\x7b"), String.empty_append,
      renderFields_eq "\x7b"]
    simp only [String.append_assoc]

theorem renderItems_eq (done separator : String) :
    (items : List Json) → renderItems done separator items = done ++ renderItems "" separator items
  | [] => by
    rw [renderItems, renderItems, String.append_empty]
  | item :: rest => by
    rw [renderItems, renderItems, renderOnto_eq (done ++ separator) item, String.empty_append,
      renderOnto_eq separator item, renderItems_eq (done ++ separator ++ _) "," rest,
      renderItems_eq (separator ++ _) "," rest]
    simp only [String.append_assoc]

theorem renderFields_eq (done separator : String) : (fields : List (String × Json)) →
    renderFields done separator fields = done ++ renderFields "" separator fields
  | [] => by
    rw [renderFields, renderFields, String.append_empty]
  | (name, value) :: rest => by
    rw [renderFields, renderFields, renderOnto_eq (done ++ separator ++ quote name ++ ":") value,
      String.empty_append, renderOnto_eq (separator ++ quote name ++ ":") value,
      renderFields_eq (done ++ separator ++ quote name ++ ":" ++ _) "," rest,
      renderFields_eq (separator ++ quote name ++ ":" ++ _) "," rest]
    simp only [String.append_assoc]

end

/-- A list is written between its brackets, whatever stands behind it. -/
theorem render_list (items : List Json) (rest : List Char) :
    (render (.list items)).toList ++ rest =
      '[' :: ((renderItems "" "" items).toList ++ ']' :: rest) := by
  rw [render, renderOnto, String.empty_append, renderItems_eq, String.toList_append,
    String.toList_append, List.append_assoc, List.append_assoc]
  rfl

/-- An object is written between its braces, whatever stands behind it. -/
theorem render_object (fields : List (String × Json)) (rest : List Char) :
    (render (.object fields)).toList ++ rest =
      '\x7b' :: ((renderFields "" "" fields).toList ++ '\x7d' :: rest) := by
  rw [render, renderOnto, String.empty_append, renderFields_eq, String.toList_append,
    String.toList_append, List.append_assoc, List.append_assoc]
  rfl

/-- An item is written behind its separator, which is a comma for all items but the first. -/
theorem renderItems_cons (separator : String) (item : Json) (items : List Json)
    (rest : List Char) :
    (renderItems "" separator (item :: items)).toList ++ rest =
      separator.toList ++
        ((render item).toList ++ ((renderItems "" "," items).toList ++ rest)) := by
  rw [renderItems, renderItems_eq, String.empty_append, renderOnto_eq, String.toList_append,
    String.toList_append, List.append_assoc, List.append_assoc]
  rfl

/-- A field is written behind its separator: the name in quotes, a colon and the value. -/
theorem renderFields_cons (separator name : String) (value : Json)
    (fields : List (String × Json)) (rest : List Char) :
    (renderFields "" separator ((name, value) :: fields)).toList ++ rest =
      separator.toList ++ '"' :: (name.toList.flatMap quotedChar ++ '"' :: ':' ::
        ((render value).toList ++ ((renderFields "" "," fields).toList ++ rest))) := by
  rw [renderFields, renderFields_eq, String.empty_append, renderOnto_eq]
  simp only [String.toList_append, quote_toList, List.append_assoc, List.cons_append,
    List.nil_append]
  rfl

/-! ### Values by their first character -/

theorem head?_ne {c mark : Char} (h : (skipBlanks cs).1 = c :: rest) (hne : c ≠ mark) :
    (skipBlanks cs).1.head? ≠ some mark := by
  rw [h]
  exact fun heq => hne (Option.some.inj heq)

/-- What begins with no bracket or brace is read as a value without parts, at every depth. -/
theorem value?_scalar (hlist : (skipBlanks cs).1.head? ≠ some '[')
    (hobject : (skipBlanks cs).1.head? ≠ some '\x7b') :
    Gives (value? depth cs) j left ↔ Gives (scalar? (skipBlanks cs).1) j left := by
  have hskip := skip?_eq_none hlist
  have hskip' := skip?_eq_none hobject
  unfold Gives
  rw [value?]
  simp only [hskip, hskip']
  constructor
  · rintro ⟨hlt, h⟩
    split at h
    · cases h
    · next value r hr heq =>
      cases h
      exact ⟨hr, heq⟩
  · rintro ⟨hlt, h⟩
    exact ⟨Nat.lt_of_lt_of_le hlt (skipBlanks cs).2, by simp only [h]⟩

/-- A number begins with a sign or a digit, so nothing else is tried in its place. -/
theorem number?_head {n : Number} (h : Gives (number? cs) n left) :
    ∃ c cs', cs = c :: cs' ∧ (c = '-' ∨ Numeric.isDigit c) := by
  obtain ⟨whole, r, -, -, -, hwhole, -⟩ := number?_iff.1 h
  cases cs with
  | nil =>
    obtain ⟨_, hwhole⟩ := hwhole
    cases hwhole
  | cons c cs =>
    refine ⟨c, cs, rfl, ?_⟩
    by_cases hc : c = '-'
    · exact .inl hc
    · have hsign : sign? '-' (c :: cs) = (false, ⟨c :: cs, Nat.le_refl _⟩) := if_neg hc
      rw [hsign] at hwhole
      obtain ⟨_, hwhole⟩ := hwhole
      rw [digits?] at hwhole
      split at hwhole
      · next hdigit => exact .inr hdigit
      · cases hwhole

/-- What is no sign and no digit does not begin a number. -/
theorem number?_head_ne {n : Number} {c : Char} (h : Gives (number? (c :: cs)) n left) (mark : Char)
    (hmark : mark ≠ '-' ∧ Numeric.isDigit mark = false) : c ≠ mark := by
  rintro rfl
  obtain ⟨_, _, heq, hc⟩ := number?_head h
  cases heq
  rcases hc with hc | hc
  · exact hmark.1 hc
  · rw [hmark.2] at hc
    cases hc

/-- The words, the texts and the numbers begin with different characters, so what is read as a
number was read by the reader of numbers. -/
theorem scalar?_number {n : Number} :
    Gives (scalar? cs) (.number n) left ↔ Gives (number? cs) n left := by
  cases cs with
  | nil =>
    constructor
    · rintro ⟨_, h⟩
      cases h
    · intro h
      obtain ⟨_, _, heq, -⟩ := number?_head h
      cases heq
  | cons c cs =>
    constructor
    · rintro ⟨hlt, h⟩
      unfold scalar? at h
      dsimp only at h
      split at h
      · obtain ⟨_, -, heq⟩ := Option.map_eq_some_iff.1 h
        cases heq
      split at h
      · cases word?_eq_some h
      split at h
      · cases word?_eq_some h
      split at h
      · cases word?_eq_some h
      · obtain ⟨⟨m, r⟩, hm, heq⟩ := Option.map_eq_some_iff.1 h
        cases heq
        exact ⟨hlt, hm⟩
    · intro h
      have hne := number?_head_ne h
      obtain ⟨hlt, h⟩ := h
      refine ⟨hlt, ?_⟩
      unfold scalar?
      simp only [if_neg (hne '"' (by decide)), if_neg (hne 'n' (by decide)),
        if_neg (hne 't' (by decide)), if_neg (hne 'f' (by decide)), h, Option.map_some]

/-- A number is what is read as one. Brackets and braces, quotes and words are the other readers'
and give other values. -/
theorem value?_number {n : Number} :
    Gives (value? depth cs) (.number n) left ↔ Gives (number? (skipBlanks cs).1) n left := by
  constructor
  · rintro ⟨hlt, h⟩
    rw [value?] at h
    split at h
    · -- a bracket begins a list
      split at h
      · cases h
      split at h
      · cases h
      split at h
      · cases h
      · cases h
    split at h
    · -- a brace begins an object
      split at h
      · cases h
      split at h
      · cases h
      split at h
      · cases h
      · cases h
    · dsimp only at h
      split at h
      · cases h
      · next value r hr heq =>
        cases h
        exact scalar?_number.1 ⟨hr, heq⟩
  · intro h
    have hhead : ∀ mark, mark ≠ '-' ∧ Numeric.isDigit mark = false →
        (skipBlanks cs).1.head? ≠ some mark := by
      intro mark hmark heq
      obtain ⟨cs', hcs'⟩ := List.head?_eq_some_iff.1 heq
      rw [hcs'] at h
      exact number?_head_ne h mark hmark rfl
    exact (value?_scalar (hhead '[' (by decide)) (hhead '\x7b' (by decide))).2
      (scalar?_number.2 h)

/-! ### Lists and objects -/

/-- No value begins with a closing bracket. -/
theorem skip?_bracket (h : Gives (value? depth cs) j left) : skip? ']' cs = none := by
  refine skip?_eq_none fun hhead => ?_
  obtain ⟨cs', hcs'⟩ := List.head?_eq_some_iff.1 hhead
  have hscalar := (value?_scalar (head?_ne hcs' (by decide)) (head?_ne hcs' (by decide))).1 h
  rw [hcs'] at hscalar
  obtain ⟨_, hscalar⟩ := hscalar
  cases hscalar

/-- An empty list takes one level of nesting as well. -/
theorem value?_nil (rest : List Char) :
    Gives (value? (depth + 1) ('[' :: ']' :: rest)) (.list []) rest := by
  refine ⟨by simp only [List.length_cons]; omega, ?_⟩
  rw [value?]
  simp only [skip?_cons '[' rfl, skip?_cons ']' rfl, if_neg (Nat.succ_ne_zero depth)]

/-- A list is its items between brackets. They may go one level less deep than the list. -/
theorem value?_list {items : List Json} (h : Gives (items? depth cs) items left) :
    Gives (value? (depth + 1) ('[' :: cs)) (.list items) left := by
  obtain ⟨hlt, h⟩ := h
  have hclose : skip? ']' cs = none := by
    rw [items?] at h
    split at h
    · cases h
    · next item r hr hitem => exact skip?_bracket ⟨hr, hitem⟩
  refine ⟨Nat.lt_succ_of_lt hlt, ?_⟩
  rw [value?]
  simp only [skip?_cons '[' rfl, hclose, if_neg (Nat.succ_ne_zero depth), Nat.add_sub_cancel, h]

/-- An item with a comma behind it is followed by further items. -/
theorem items?_cons {items : List Json} {after : List Char}
    (hitem : Gives (value? depth cs) j left) (hcomma : (skipBlanks left).1 = ',' :: after)
    (hitems : Gives (items? depth after) items rest) :
    Gives (items? depth cs) (j :: items) rest := by
  obtain ⟨hlt, hitem⟩ := hitem
  obtain ⟨hskipped, hskip⟩ := skip?_eq_some hcomma
  obtain ⟨hlt', hitems⟩ := hitems
  refine ⟨by omega, ?_⟩
  rw [items?]
  simp only [hitem, hskip, hitems]

/-- An item with a closing bracket behind it is the last one. -/
theorem items?_singleton (hitem : Gives (value? depth cs) j left)
    (hclose : (skipBlanks left).1 = ']' :: rest) : Gives (items? depth cs) [j] rest := by
  obtain ⟨hlt, hitem⟩ := hitem
  obtain ⟨hskipped, hskip⟩ := skip?_eq_some hclose
  have hcomma : skip? ',' left = none := skip?_eq_none (head?_ne hclose (by decide))
  refine ⟨by omega, ?_⟩
  rw [items?]
  simp only [hitem, hcomma, hskip]

theorem value?_empty (rest : List Char) :
    Gives (value? (depth + 1) ('\x7b' :: '\x7d' :: rest)) (.object []) rest := by
  have hlist : skip? '[' ('\x7b' :: '\x7d' :: rest) = none :=
    skip?_cons_of_ne rfl (by decide) _
  refine ⟨by simp only [List.length_cons]; omega, ?_⟩
  rw [value?]
  simp only [hlist, skip?_cons '\x7b' rfl, skip?_cons '\x7d' rfl,
    if_neg (Nat.succ_ne_zero depth)]

/-- An object is its members between braces, the first of which begins with a quote. -/
theorem value?_object {fields : List (String × Json)}
    (h : Gives (members? depth ('"' :: cs)) fields left) :
    Gives (value? (depth + 1) ('\x7b' :: '"' :: cs)) (.object fields) left := by
  have hlist : skip? '[' ('\x7b' :: '"' :: cs) = none := skip?_cons_of_ne rfl (by decide) _
  have hclose : skip? '\x7d' ('"' :: cs) = none := skip?_cons_of_ne rfl (by decide) _
  obtain ⟨hlt, h⟩ := h
  refine ⟨Nat.lt_succ_of_lt hlt, ?_⟩
  rw [value?]
  simp only [hlist, skip?_cons '\x7b' rfl, hclose, if_neg (Nat.succ_ne_zero depth),
    Nat.add_sub_cancel, h]

/-- A member with a comma behind it is followed by further members. -/
theorem members?_cons {name : String} {fields : List (String × Json)} {value after : List Char}
    (hname : Gives (textBody? [] cs) name (':' :: value))
    (hvalue : Gives (value? depth value) j left) (hcomma : (skipBlanks left).1 = ',' :: after)
    (hfields : Gives (members? depth after) fields rest) :
    Gives (members? depth ('"' :: cs)) ((name, j) :: fields) rest := by
  obtain ⟨hlt, hname⟩ := hname
  obtain ⟨hlt', hvalue⟩ := hvalue
  obtain ⟨hskipped, hskip⟩ := skip?_eq_some hcomma
  obtain ⟨hlt'', hfields⟩ := hfields
  refine ⟨by simp only [List.length_cons] at hlt ⊢; omega, ?_⟩
  rw [members?]
  simp only [skip?_cons '"' rfl, hname, skip?_cons ':' rfl, hvalue, hskip, hfields]

/-- A member with a closing brace behind it is the last one. -/
theorem members?_singleton {name : String} {value : List Char}
    (hname : Gives (textBody? [] cs) name (':' :: value))
    (hvalue : Gives (value? depth value) j left)
    (hclose : (skipBlanks left).1 = '\x7d' :: rest) :
    Gives (members? depth ('"' :: cs)) [(name, j)] rest := by
  obtain ⟨hlt, hname⟩ := hname
  obtain ⟨hlt', hvalue⟩ := hvalue
  obtain ⟨hskipped, hskip⟩ := skip?_eq_some hclose
  have hcomma : skip? ',' left = none := skip?_eq_none (head?_ne hclose (by decide))
  refine ⟨by simp only [List.length_cons] at hlt ⊢; omega, ?_⟩
  rw [members?]
  simp only [skip?_cons '"' rfl, hname, skip?_cons ':' rfl, hvalue, hcomma, hskip]

/-! ### Reading back -/

/-- A text is read as a value, up to blanks, in front of what cannot go on a number. -/
def ReadsAs (depth : Nat) (cs : List Char) (j : Json) : Prop :=
  ∀ rest, EndsNumber rest →
    ∃ left, Gives (value? depth (cs ++ rest)) j left ∧ (skipBlanks left).1 = (skipBlanks rest).1

/-- A number, written alone, is read back. -/
def Number.ReadsBack (n : Number) : Prop :=
  parse (Json.render (.number n)) = some (.number n)

/-- For a number, reading it back is up to the reader of numbers. -/
theorem readsBack_iff {n : Number} : n.ReadsBack ↔
    ∃ left, Gives (number? (skipBlanks (render (.number n)).toList).1) n left ∧
      (skipBlanks left).1 = [] := by
  rw [Number.ReadsBack, parse_eq_some_iff]
  simp only [value?_number]

/-- The reader of numbers can be run on the text of a number. -/
instance (n : Number) : Decidable n.ReadsBack :=
  decidable_of_iff
    (∃ r ∈ number? (skipBlanks (render (.number n)).toList).1,
      r.1 = n ∧ (skipBlanks r.2.1).1 = []) <| by
    rw [readsBack_iff]
    constructor
    · rintro ⟨⟨m, left, hlt⟩, hr, hm, hblank⟩
      obtain rfl : m = n := hm
      exact ⟨left, ⟨hlt, hr⟩, hblank⟩
    · rintro ⟨left, ⟨hlt, hr⟩, hblank⟩
      exact ⟨(n, ⟨left, hlt⟩), hr, rfl, hblank⟩

theorem skipBlanks_eq (cs : List Char) : (skipBlanks cs).1 = cs.dropWhile isBlank := by
  induction cs with
  | nil => rfl
  | cons c cs ih =>
    rw [skipBlanks, List.dropWhile_cons]
    split
    · exact ih
    · rfl

/-- A number that is read back from its own text is read back in front of anything that ends a
number. -/
theorem readsAs_number {n : Number} (h : n.ReadsBack) (depth : Nat) :
    ReadsAs depth (render (.number n)).toList (.number n) := by
  intro rest hrest
  obtain ⟨left, hnumber, hleft⟩ := readsBack_iff.1 h
  obtain ⟨c, cs, hcs, -⟩ := number?_head hnumber
  refine ⟨left ++ rest, value?_number.2 ?_, ?_⟩
  · have happend : (skipBlanks ((render (.number n)).toList ++ rest)).1 =
        (skipBlanks (render (.number n)).toList).1 ++ rest := by
      rw [skipBlanks_eq] at hcs ⊢
      rw [skipBlanks_eq, List.dropWhile_append, hcs]
      rfl
    rw [happend]
    exact number?_append hrest hnumber
  · rw [skipBlanks_eq] at hleft ⊢
    rw [skipBlanks_eq, List.dropWhile_append, hleft]
    rfl

/-- What is read without looking at what follows it leaves exactly that. -/
theorem readsAs_of_scalar (c : Char) (cs : List Char) (hblank : isBlank c = false)
    (hlist : c ≠ '[') (hobject : c ≠ '\x7b')
    (h : ∀ rest, Gives (scalar? (c :: (cs ++ rest))) j rest) : ReadsAs depth (c :: cs) j := by
  intro rest _
  have hskip := skipBlanks_cons hblank (cs ++ rest)
  refine ⟨rest, (value?_scalar (head?_ne hskip hlist) (head?_ne hskip hobject)).2 ?_, rfl⟩
  rw [hskip]
  exact h rest

/-- The word for a value is read as this value, and nothing behind it is touched. -/
theorem word?_append (word : List Char) {value : Json} (hne : word ≠ []) (rest : List Char) :
    Gives (word? word value hne (word ++ rest)) value rest := by
  have hpos := List.length_pos_iff.2 hne
  refine ⟨by rw [List.length_append]; omega, ?_⟩
  unfold word?
  rw [dif_pos (List.prefix_append ..)]
  simp only [List.drop_left]

theorem readsAs_null : ReadsAs depth (render .null).toList .null :=
  readsAs_of_scalar 'n' ['u', 'l', 'l'] rfl (by decide) (by decide)
    (word?_append ['n', 'u', 'l', 'l'] (by decide))

theorem readsAs_bool (b : Bool) : ReadsAs depth (render (.bool b)).toList (.bool b) := by
  cases b with
  | true =>
    exact readsAs_of_scalar 't' ['r', 'u', 'e'] rfl (by decide) (by decide)
      (word?_append ['t', 'r', 'u', 'e'] (by decide))
  | false =>
    exact readsAs_of_scalar 'f' ['a', 'l', 's', 'e'] rfl (by decide) (by decide)
      (word?_append ['f', 'a', 'l', 's', 'e'] (by decide))

/-- A text is read back from its quoted form up to its closing quote, so anything may stand behind
it. -/
theorem readsAs_text (s : String) : ReadsAs depth (render (.text s)).toList (.text s) := by
  have hrender : (render (.text s)).toList = '"' :: (s.toList.flatMap quotedChar ++ ['"']) := by
    rw [render, renderOnto, String.empty_append, quote_toList]
  rw [hrender]
  refine readsAs_of_scalar '"' _ rfl (by decide) (by decide) fun rest => ?_
  rw [List.append_assoc, List.singleton_append]
  obtain ⟨hlt, hbody⟩ := textBody?_quoted s rest
  refine ⟨Nat.lt_succ_of_lt hlt, ?_⟩
  unfold scalar?
  simp only [if_true, hbody, Option.map_some]

/-- What ends a number: a character that is no digit, no point and no exponent. -/
theorem endsNumber_cons {c : Char} (rest : List Char)
    (h : Numeric.isDigit c = false ∧ c ≠ '.' ∧ c ≠ 'e' ∧ c ≠ 'E') : EndsNumber (c :: rest) := by
  intro c' hc'
  cases hc'
  exact h

/-- Items are read back if each of them is. Behind an item stands a comma or the bracket, which ends
a number too. -/
theorem items?_render {item : Json} {items : List Json}
    (h : ∀ x ∈ item :: items, ReadsAs depth (render x).toList x) (rest : List Char) :
    Gives
      (items? depth ((render item).toList ++ ((renderItems "" "," items).toList ++ ']' :: rest)))
      (item :: items) rest := by
  induction items generalizing item with
  | nil =>
    obtain ⟨left, hitem, hleft⟩ :=
      h item List.mem_cons_self (']' :: rest) (endsNumber_cons rest (by decide))
    rw [skipBlanks_cons rfl] at hleft
    exact items?_singleton hitem hleft
  | cons next items ih =>
    rw [renderItems_cons]
    obtain ⟨left, hitem, hleft⟩ := h item List.mem_cons_self
      (',' :: ((render next).toList ++ ((renderItems "" "," items).toList ++ ']' :: rest)))
      (endsNumber_cons _ (by decide))
    rw [skipBlanks_cons rfl] at hleft
    exact items?_cons hitem hleft (ih fun x hx => h x (List.mem_cons_of_mem _ hx))

/-- Fields are read back if each of their values is. The names are texts in quotes, which are always
read back. -/
theorem members?_render {name : String} {value : Json} {fields : List (String × Json)}
    (h : ∀ field ∈ (name, value) :: fields, ReadsAs depth (render field.2).toList field.2)
    (rest : List Char) :
    Gives (members? depth ('"' :: (name.toList.flatMap quotedChar ++ '"' :: ':' ::
      ((render value).toList ++ ((renderFields "" "," fields).toList ++ '\x7d' :: rest)))))
      ((name, value) :: fields) rest := by
  induction fields generalizing name value with
  | nil =>
    obtain ⟨left, hvalue, hleft⟩ :=
      h _ List.mem_cons_self ('\x7d' :: rest) (endsNumber_cons rest (by decide))
    rw [skipBlanks_cons rfl] at hleft
    exact members?_singleton (textBody?_quoted name _) hvalue hleft
  | cons field fields ih =>
    obtain ⟨next, nextValue⟩ := field
    have hnext := ih fun x hx => h x (List.mem_cons_of_mem _ hx)
    rw [renderFields_cons]
    generalize hafter : '"' :: (next.toList.flatMap quotedChar ++ _) = after at hnext ⊢
    obtain ⟨left, hvalue, hleft⟩ :=
      h _ List.mem_cons_self (',' :: after) (endsNumber_cons _ (by decide))
    rw [skipBlanks_cons rfl] at hleft
    exact members?_cons (textBody?_quoted name _) hvalue hleft hnext

/-- A value is read back if its numbers are. By induction on the value, with the depth counted down
as the reader counts it. -/
theorem readsAs_render (h : j.Within Number.ReadsBack depth) :
    ReadsAs depth (render j).toList j := by
  induction h with
  | null => exact readsAs_null
  | bool b => exact readsAs_bool b
  | number hn => exact readsAs_number hn _
  | text s => exact readsAs_text s
  | @list depth items h ih =>
    intro rest _
    refine ⟨rest, ?_, rfl⟩
    rw [render_list]
    cases items with
    | nil => exact value?_nil rest
    | cons item items =>
      rw [renderItems_cons]
      exact value?_list (items?_render ih rest)
  | @object depth fields h ih =>
    intro rest _
    refine ⟨rest, ?_, rfl⟩
    rw [render_object]
    cases fields with
    | nil => exact value?_empty rest
    | cons field fields =>
      obtain ⟨name, value⟩ := field
      rw [renderFields_cons]
      exact value?_object (members?_render ih rest)

/-- **Values read back**: a value that nests no deeper than the reader goes is read back from its
text, if its numbers are. The condition on numbers is asked of each of them alone, since what is
written behind one never goes on it. -/
theorem parse_render (h : j.Within Number.ReadsBack maxDepth) : parse (render j) = some j := by
  obtain ⟨left, hvalue, hleft⟩ := readsAs_render h [] (fun c hc => by cases hc)
  rw [List.append_nil] at hvalue
  exact parse_eq_some_iff.2 ⟨left, hvalue, hleft⟩

end ProcedureChart.Json
