import ProcedureChart.Proofs.Json.Numbers

/-!
# The values of JSON texts

What the values that are read off texts have in common (`parse_within`): their lists and objects
nest no deeper than the reader goes, and their numbers are finite.
-/

namespace ProcedureChart.Json

/-! ### Numbers and depth -/

mutual

/-- The numbers in a value. -/
def numbers : Json → List Number
  | .number n => [n]
  | .list items => itemNumbers items
  | .object fields => fieldNumbers fields
  | .null | .bool _ | .text _ => []

/-- The numbers in the items of a list. -/
def itemNumbers : List Json → List Number
  | [] => []
  | item :: rest => numbers item ++ itemNumbers rest

/-- The numbers in the fields of an object. -/
def fieldNumbers : List (String × Json) → List Number
  | [] => []
  | (_, value) :: rest => numbers value ++ fieldNumbers rest

end

theorem numbers_subset_itemNumbers {item : Json} {items : List Json} (h : item ∈ items) :
    item.numbers ⊆ itemNumbers items := by
  induction h with
  | head => exact List.subset_append_left ..
  | tail _ _ ih => exact List.subset_append_of_subset_right _ ih

theorem numbers_subset_fieldNumbers {field : String × Json} {fields : List (String × Json)}
    (h : field ∈ fields) : field.2.numbers ⊆ fieldNumbers fields := by
  induction h with
  | head => exact List.subset_append_left ..
  | tail _ _ ih => exact List.subset_append_of_subset_right _ ih

/-- A value has numbers that satisfy a condition, and its lists and objects nest at most so deep. -/
inductive Within (ok : Number → Prop) : Nat → Json → Prop where
  | null {depth : Nat} : Within ok depth .null
  | bool {depth : Nat} (b : Bool) : Within ok depth (.bool b)
  | number {depth : Nat} {n : Number} (h : ok n) : Within ok depth (.number n)
  | text {depth : Nat} (s : String) : Within ok depth (.text s)
  | list {depth : Nat} {items : List Json} (h : ∀ item ∈ items, Within ok depth item) :
      Within ok (depth + 1) (.list items)
  | object {depth : Nat} {fields : List (String × Json)}
      (h : ∀ field ∈ fields, Within ok depth field.2) : Within ok (depth + 1) (.object fields)

attribute [simp] Within.null Within.bool Within.text

namespace Within

variable {ok ok' : Number → Prop} {depth : Nat} {j : Json}

@[simp]
theorem number_iff {n : Number} : (Json.number n).Within ok depth ↔ ok n :=
  ⟨fun | number h => h, number⟩

@[simp]
theorem list_iff {items : List Json} :
    (Json.list items).Within ok (depth + 1) ↔ ∀ item ∈ items, item.Within ok depth :=
  ⟨fun | list h => h, list⟩

@[simp]
theorem object_iff {fields : List (String × Json)} :
    (Json.object fields).Within ok (depth + 1) ↔ ∀ field ∈ fields, field.2.Within ok depth :=
  ⟨fun | object h => h, object⟩

/-- A condition may be exchanged for one that the value's own numbers satisfy as well. -/
theorem imp (h : Within ok depth j) (himp : ∀ n ∈ j.numbers, ok n → ok' n) :
    Within ok' depth j := by
  induction h with
  | null => exact .null
  | bool b => exact .bool b
  | number hn => exact .number (himp _ (List.mem_singleton_self _) hn)
  | text s => exact .text s
  | list h ih =>
    exact .list fun item hitem =>
      ih item hitem fun n hn => himp n (numbers_subset_itemNumbers hitem hn)
  | object h ih =>
    exact .object fun field hfield =>
      ih field hfield fun n hn => himp n (numbers_subset_fieldNumbers hfield hn)

/-- What fits into a depth fits into a greater one. -/
theorem mono {deeper : Nat} (h : Within ok depth j) (hle : depth ≤ deeper) :
    Within ok deeper j := by
  induction h generalizing deeper with
  | null => exact .null
  | bool b => exact .bool b
  | number hn => exact .number hn
  | text s => exact .text s
  | list h ih =>
    obtain ⟨deeper, rfl⟩ := Nat.exists_eq_add_of_le' (Nat.le_trans (Nat.le_add_left 1 _) hle)
    exact .list fun item hitem => ih item hitem (Nat.le_of_succ_le_succ hle)
  | object h ih =>
    obtain ⟨deeper, rfl⟩ := Nat.exists_eq_add_of_le' (Nat.le_trans (Nat.le_add_left 1 _) hle)
    exact .object fun field hfield => ih field hfield (Nat.le_of_succ_le_succ hle)

end Within

/-! ### What is read -/

theorem word?_eq_some {word : List Char} {value j : Json} {hne : word ≠ []} {cs : List Char}
    {rest : Rest cs} (h : word? word value hne cs = some (j, rest)) : j = value := by
  unfold word? at h
  split at h
  · cases h
    rfl
  · cases h

/-- A value without parts is of any depth, and its number is finite if it is one. -/
theorem scalar?_within {cs : List Char} {j : Json} {rest : Rest cs} (depth : Nat)
    (h : scalar? cs = some (j, rest)) : j.Within Number.IsFinite depth := by
  unfold scalar? at h
  split at h
  · cases h
  split at h
  · obtain ⟨⟨s, r⟩, -, heq⟩ := Option.map_eq_some_iff.1 h
    cases heq
    exact .text s
  split at h
  · rw [word?_eq_some h]
    exact .null
  split at h
  · rw [word?_eq_some h]
    exact .bool true
  split at h
  · rw [word?_eq_some h]
    exact .bool false
  · obtain ⟨⟨n, r⟩, hn, heq⟩ := Option.map_eq_some_iff.1 h
    cases heq
    exact .number (number?_isFinite hn)

mutual

/-- A value that is read at some depth is within it. A list or an object takes one level off before
its parts are read. -/
theorem value?_within {depth : Nat} {cs : List Char} {j : Json} {rest : Rest cs}
    (h : value? depth cs = some (j, rest)) : j.Within Number.IsFinite depth := by
  rw [value?] at h
  split at h
  · next r₁ h₁ _ =>
    split at h
    · cases h
    · next hdepth =>
      obtain ⟨depth, rfl⟩ := Nat.exists_eq_succ_of_ne_zero hdepth
      split at h
      · cases h
        exact .list fun item hitem => absurd hitem List.not_mem_nil
      · split at h
        · cases h
        · next items r₂ h₂ hitems =>
          cases h
          exact .list (items?_within hitems)
  · split at h
    · next r₁ h₁ _ =>
      split at h
      · cases h
      · next hdepth =>
        obtain ⟨depth, rfl⟩ := Nat.exists_eq_succ_of_ne_zero hdepth
        split at h
        · cases h
          exact .object fun field hfield => absurd hfield List.not_mem_nil
        · split at h
          · cases h
          · next fields r₂ h₂ hfields =>
            cases h
            exact .object (members?_within hfields)
    · dsimp only at h
      split at h
      · cases h
      · next value r₂ h₂ hscalar =>
        cases h
        exact scalar?_within depth hscalar
termination_by cs.length * 2
decreasing_by all_goals omega

/-- So are the items of a list. -/
theorem items?_within {depth : Nat} {cs : List Char} {items : List Json} {rest : Rest cs}
    (h : items? depth cs = some (items, rest)) :
    ∀ item ∈ items, item.Within Number.IsFinite depth := by
  rw [items?] at h
  split at h
  · cases h
  · next item r₁ h₁ hitem =>
    have hfirst := value?_within hitem
    split at h
    · next r₂ h₂ _ =>
      split at h
      · cases h
      · next items' r₃ h₃ hitems =>
        cases h
        exact List.forall_mem_cons.2 ⟨hfirst, items?_within hitems⟩
    · split at h
      · cases h
      · cases h
        exact List.forall_mem_singleton.2 hfirst
termination_by cs.length * 2 + 1
decreasing_by all_goals omega

/-- And so are the values of an object's fields. -/
theorem members?_within {depth : Nat} {cs : List Char} {fields : List (String × Json)}
    {rest : Rest cs} (h : members? depth cs = some (fields, rest)) :
    ∀ field ∈ fields, field.2.Within Number.IsFinite depth := by
  rw [members?] at h
  split at h
  · cases h
  next r₁ h₁ _ =>
  split at h
  · cases h
  next name r₂ h₂ _ =>
  split at h
  · cases h
  next r₃ h₃ _ =>
  split at h
  · cases h
  next value r₄ h₄ hvalue =>
  have hfirst := value?_within hvalue
  split at h
  · next r₅ h₅ _ =>
    split at h
    · cases h
    · next fields' r₆ h₆ hfields =>
      cases h
      exact List.forall_mem_cons.2 ⟨hfirst, members?_within hfields⟩
  · split at h
    · cases h
    · cases h
      exact List.forall_mem_singleton.2 hfirst
termination_by cs.length * 2
decreasing_by all_goals omega

end

/-- A text holds a value if one is read off its front and only blanks are left. What is left over
otherwise is not looked at. -/
theorem parse_eq_some_iff {text : String} {j : Json} :
    parse text = some j ↔
      ∃ left, Gives (value? maxDepth text.toList) j left ∧ (skipBlanks left).1 = [] := by
  unfold parse
  constructor
  · intro h
    split at h
    · next value left hlt heq =>
      split at h
      · next hempty =>
        cases h
        exact ⟨left, ⟨hlt, heq⟩, List.isEmpty_iff.1 hempty⟩
      · cases h
    · cases h
  · rintro ⟨left, ⟨hlt, heq⟩, hempty⟩
    simp only [heq, hempty, List.isEmpty_nil, if_true]

/-- **What a text holds** nests as deep as the reader goes at most, and its numbers are finite. The
reader counts how deep it is, and gives up on anything deeper. -/
theorem parse_within {text : String} {j : Json} (h : parse text = some j) :
    j.Within Number.IsFinite maxDepth := by
  obtain ⟨left, ⟨_, hvalue⟩, -⟩ := parse_eq_some_iff.1 h
  exact value?_within hvalue

end ProcedureChart.Json
