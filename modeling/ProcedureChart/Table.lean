/-!
# Tables

Finite maps from names to values, kept in ascending order of their names. The order is part of the
type: two tables with the same look-ups are the same table (`Table.ext_get?`), and whatever walks
over a table meets the names in code point order, however the table came about.

`insert` overwrites, so of several entries under one name the last one counts.
-/

namespace ProcedureChart

universe u v

/-- A finite map from names to values. -/
structure Table (α : Type u) where
  /-- the entries in ascending order of their names -/
  entries : List (String × α)
  sorted : entries.Pairwise fun a b => a.1 < b.1

namespace Table

variable {α : Type u} {β : Type v}

/-- The table without entries. -/
def empty : Table α := ⟨[], .nil⟩

instance : Inhabited (Table α) := ⟨empty⟩

instance : EmptyCollection (Table α) := ⟨empty⟩

/-- The value of the first entry of a name in a list of entries. -/
def find? (name : String) : List (String × α) → Option α
  | [] => none
  | head :: rest => if name = head.1 then some head.2 else find? name rest

/-- The value under a name. -/
def get? (t : Table α) (name : String) : Option α := find? name t.entries

/-- Whether a name has a value. -/
def contains (t : Table α) (name : String) : Bool := (t.get? name).isSome

/-- The names in ascending order. -/
def keys (t : Table α) : List String := t.entries.map (·.1)

/-- The values in the order of their names. -/
def values (t : Table α) : List α := t.entries.map (·.2)

/-- The number of entries. -/
def size (t : Table α) : Nat := t.entries.length

/-- Whether there are no entries. -/
def isEmpty (t : Table α) : Bool := t.entries.isEmpty

/-! ### Building tables -/

/-- Puts an entry at its place in a sorted list, over an entry of the same name. -/
def place (name : String) (value : α) : List (String × α) → List (String × α)
  | [] => [(name, value)]
  | head :: rest =>
    if name < head.1 then (name, value) :: head :: rest
    else if name = head.1 then (name, value) :: rest
    else head :: place name value rest

private theorem lt_of_not_lt_of_ne {a b : String} (h : ¬ a < b) (hne : a ≠ b) : b < a :=
  String.not_le.1 fun hle => hne (String.le_antisymm hle (String.not_lt.1 h))

/-- The names after placing an entry are the old ones and the new one. -/
theorem fst_of_mem_place {name : String} {value : α} {l : List (String × α)} {e : String × α}
    (h : e ∈ place name value l) : e.1 = name ∨ e ∈ l := by
  induction l with
  | nil => simp only [place, List.mem_singleton] at h; exact .inl (by rw [h])
  | cons head rest ih =>
    simp only [place] at h
    split at h
    · rcases List.mem_cons.1 h with rfl | h
      · exact .inl rfl
      · exact .inr h
    · split at h
      · rcases List.mem_cons.1 h with rfl | h
        · exact .inl rfl
        · exact .inr (List.mem_cons_of_mem _ h)
      · rcases List.mem_cons.1 h with rfl | h
        · exact .inr List.mem_cons_self
        · rcases ih h with h | h
          · exact .inl h
          · exact .inr (List.mem_cons_of_mem _ h)

/-- Placing an entry keeps a list sorted. -/
theorem pairwise_place (name : String) (value : α) {l : List (String × α)}
    (h : l.Pairwise fun a b => a.1 < b.1) :
    (place name value l).Pairwise fun a b => a.1 < b.1 := by
  induction l with
  | nil => exact List.pairwise_singleton ..
  | cons head rest ih =>
    obtain ⟨hhead, hrest⟩ := List.pairwise_cons.1 h
    simp only [place]
    split
    · next hlt =>
      refine List.pairwise_cons.2 ⟨fun e he => ?_, h⟩
      rcases List.mem_cons.1 he with rfl | he
      · exact hlt
      · exact String.lt_trans hlt (hhead e he)
    · next hlt =>
      split
      · next heq => exact List.pairwise_cons.2 ⟨fun e he => heq ▸ hhead e he, hrest⟩
      · next hne =>
        refine List.pairwise_cons.2 ⟨fun e he => ?_, ih hrest⟩
        rcases fst_of_mem_place he with he | he
        · exact he ▸ lt_of_not_lt_of_ne hlt hne
        · exact hhead e he

/-- The table with a value put under a name. -/
def insert (t : Table α) (name : String) (value : α) : Table α :=
  ⟨place name value t.entries, pairwise_place name value t.sorted⟩

/-- The table of a list of entries. The last of several entries of one name counts. -/
def ofList (l : List (String × α)) : Table α :=
  l.foldl (fun t e => t.insert e.1 e.2) empty

/-- The table with a function of name and value applied to each value. -/
def mapEntries (t : Table α) (f : String → α → β) : Table β where
  entries := t.entries.map fun e => (e.1, f e.1 e.2)
  sorted := List.pairwise_map.2 t.sorted

/-- The table with a function applied to each value. -/
def map (t : Table α) (f : α → β) : Table β := t.mapEntries fun _ => f

/-! ### Look-up laws -/

@[simp] theorem get?_empty (name : String) : (empty : Table α).get? name = none := rfl

private theorem find?_place (name : String) (value : α) (other : String)
    (l : List (String × α)) :
    find? other (place name value l) = if other = name then some value else find? other l := by
  induction l with
  | nil => rfl
  | cons head rest ih =>
    simp only [place]
    split
    · rfl
    · split
      · next heq => by_cases h : other = name <;> simp [find?, h, ← heq]
      · next hne =>
        by_cases h : other = head.1
        · have hother : other ≠ name := fun h' => hne (h'.symm.trans h)
          simp [find?, h, h ▸ hother]
        · simp [find?, h, ih]

/-- After an insertion the new value stands under its name and nothing else has changed. -/
theorem get?_insert (t : Table α) (name : String) (value : α) (other : String) :
    (t.insert name value).get? other = if other = name then some value else t.get? other :=
  find?_place name value other t.entries

private theorem find?_eq_none_of_lt {name : String} {l : List (String × α)}
    (h : ∀ e ∈ l, name < e.1) : find? name l = none := by
  induction l with
  | nil => rfl
  | cons head rest ih =>
    have hne : name ≠ head.1 := fun heq =>
      String.lt_irrefl head.1 (heq ▸ h head List.mem_cons_self)
    rw [find?, if_neg hne]
    exact ih fun e he => h e (List.mem_cons_of_mem _ he)

private theorem find?_cons_self (e : String × α) (l : List (String × α)) :
    find? e.1 (e :: l) = some e.2 := if_pos rfl

/-- The first names of two sorted lists with the same look-ups agree. -/
private theorem not_lt_of_find?_eq {a b : String × α} {l l' : List (String × α)}
    (hb : ∀ e ∈ l', b.1 < e.1) (h : find? a.1 (a :: l) = find? a.1 (b :: l')) : ¬ a.1 < b.1 := by
  intro hlt
  have hnone : find? a.1 (b :: l') = none := find?_eq_none_of_lt fun e he => by
    rcases List.mem_cons.1 he with rfl | he
    · exact hlt
    · exact String.lt_trans hlt (hb e he)
  rw [← h, find?_cons_self] at hnone
  cases hnone

private theorem eq_of_find?_eq {l₁ l₂ : List (String × α)}
    (h₁ : l₁.Pairwise fun a b => a.1 < b.1) (h₂ : l₂.Pairwise fun a b => a.1 < b.1)
    (h : ∀ name, find? name l₁ = find? name l₂) : l₁ = l₂ := by
  induction l₁ generalizing l₂ with
  | nil =>
    cases l₂ with
    | nil => rfl
    | cons head rest => cases (h head.1).trans (find?_cons_self head rest)
  | cons a rest ih =>
    cases l₂ with
    | nil => cases (find?_cons_self a rest).symm.trans (h a.1)
    | cons b rest' =>
      obtain ⟨ha, hrest⟩ := List.pairwise_cons.1 h₁
      obtain ⟨hb, hrest'⟩ := List.pairwise_cons.1 h₂
      have hkey : a.1 = b.1 := by
        by_cases hab : a.1 = b.1
        · exact hab
        · exact absurd (lt_of_not_lt_of_ne (not_lt_of_find?_eq hb (h a.1)) hab)
            (not_lt_of_find?_eq ha (h b.1).symm)
      have hval : a.2 = b.2 := by
        have := h a.1
        rw [find?_cons_self, hkey, find?_cons_self] at this
        exact Option.some.inj this
      have htail : rest = rest' := ih hrest hrest' fun name => by
        by_cases hn : name = a.1
        · rw [hn, find?_eq_none_of_lt ha, hkey, find?_eq_none_of_lt hb]
        · have := h name
          rwa [find?, find?, if_neg hn, if_neg (hkey ▸ hn)] at this
      rw [htail, show a = b from Prod.ext hkey hval]

/-- A value that is found stands in the list. -/
theorem mem_of_find?_eq_some {name : String} {value : α} {l : List (String × α)}
    (h : find? name l = some value) : (name, value) ∈ l := by
  induction l with
  | nil => cases h
  | cons head rest ih =>
    rw [find?] at h
    split at h
    · next heq =>
      obtain rfl := Option.some.inj h
      rw [heq]
      exact List.mem_cons_self
    · exact List.mem_cons_of_mem _ (ih h)

/-- A name with a value is one of the keys. -/
theorem mem_keys_of_get?_eq_some {t : Table α} {name : String} {value : α}
    (h : t.get? name = some value) : name ∈ t.keys :=
  List.mem_map.2 ⟨(name, value), mem_of_find?_eq_some h, rfl⟩

/-- A table is determined by its look-ups. -/
theorem ext_get? {s t : Table α} (h : ∀ name, s.get? name = t.get? name) : s = t := by
  cases s with
  | mk l₁ h₁ =>
    cases t with
    | mk l₂ h₂ =>
      have : l₁ = l₂ := eq_of_find?_eq h₁ h₂ h
      subst this
      rfl

instance [DecidableEq α] : DecidableEq (Table α) := fun s t =>
  if h : s.entries = t.entries then
    .isTrue (by cases s; cases t; subst h; rfl)
  else .isFalse fun heq => h (heq ▸ rfl)

end Table

end ProcedureChart
