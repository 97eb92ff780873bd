import ProcedureChart.Json.Value
import ProcedureChart.Proofs.Json.Values
import ProcedureChart.Proofs.Tables

/-!
# Readers and writers of typed data

What makes a reader and a writer of one type of data fit together, said once for each way in which
data is put together. Reading undoes writing (`Undoes`), and whatever is read off a value with
finite numbers is written with finite numbers again, within a depth that depends on the type alone
(`KeepsFinite`). Both hold of lists and tables if they hold of what these are made of, and of
records field by field: a field is found where its name stands, fields of other names are passed
over, and a field with a default or one that may be absent is read as what it was written for.
-/

namespace ProcedureChart.Json

variable {α : Type} {depth : Nat} {read : Json → Option α} {write : α → Json}
  {name other : String} {j value : Json} {fields : List (String × Json)}

/-- Reading undoes writing. -/
def Undoes (read : Json → Option α) (write : α → Json) : Prop := ∀ x, read (write x) = some x

/-- A value has finite numbers and nests at most so deep. -/
abbrev Finite (depth : Nat) (j : Json) : Prop := j.Within Number.IsFinite depth

/-- What is read off a value with finite numbers is written as one, within a fixed depth. -/
def KeepsFinite (depth : Nat) (read : Json → Option α) (write : α → Json) : Prop :=
  ∀ n j x, Finite n j → read j = some x → Finite depth (write x)

/-! ### Values without parts -/

theorem undoes_text : Undoes text? .text := fun _ => rfl

theorem undoes_bool : Undoes bool? .bool := fun _ => rfl

theorem undoes_float : Undoes float? ofFloat := fun _ => rfl

theorem keepsFinite_text : KeepsFinite depth text? .text :=
  fun _ _ _ _ _ => .text _

/-- Only a number is read as a float, and it is written as the number it was, so it is finite if
what it was read off is. -/
theorem keepsFinite_float : KeepsFinite depth float? ofFloat := by
  intro n j x hj hread
  cases hj with
  | number hn =>
    cases hread
    exact .number hn
  | null | bool | text | list | object => cases hread

/-! ### Lists and tables -/

/-- Reading a list item by item gives back the items that were written, if each of them is read
back. -/
theorem mapM_map {β : Type} {f : β → Option α} {g : α → β} (h : ∀ x, f (g x) = some x)
    (l : List α) : (l.map g).mapM f = some l := by
  induction l with
  | nil => rfl
  | cons x l ih =>
    simp only [List.map_cons, List.mapM_cons, h, ih, Option.bind_eq_bind, Option.bind_some,
      Option.pure_def]

/-- Each item that was read off a list was read off one of its items. -/
theorem exists_of_mem_mapM {β : Type} {f : β → Option α} {l : List β} {xs : List α}
    (h : l.mapM f = some xs) {x : α} (hx : x ∈ xs) : ∃ y ∈ l, f y = some x := by
  induction l generalizing xs with
  | nil =>
    cases h
    cases hx
  | cons y l ih =>
    simp only [List.mapM_cons, Option.bind_eq_bind, Option.bind_eq_some_iff, Option.pure_def,
      Option.some.injEq] at h
    obtain ⟨x', hx', xs', hxs', rfl⟩ := h
    rcases List.mem_cons.1 hx with rfl | hx
    · exact ⟨y, List.mem_cons_self, hx'⟩
    · obtain ⟨z, hz, hfz⟩ := ih hxs' hx
      exact ⟨z, List.mem_cons_of_mem _ hz, hfz⟩

/-- A list is read back if its items are, in their order and none of them left out. -/
theorem Undoes.list (h : Undoes read write) : Undoes (listOf? read) (ofList write) :=
  fun items => mapM_map h items

/-- A table is read back if its values are. The names of its entries are already in order and no
name stands twice, so reading the entries one by one puts them together to the same table. -/
theorem Undoes.table (h : Undoes read write) : Undoes (tableOf? read) (ofTable write) := by
  intro t
  have hentry (e : String × α) : (read (write e.2)).map (e.1, ·) = some e := by
    rw [h e.2]
    rfl
  have hentries := mapM_map (f := fun e : String × Json => (read e.2).map (e.1, ·))
    (g := fun e : String × α => (e.1, write e.2)) hentry t.entries
  change (List.mapM (fun e : String × Json => (read e.2).map (e.1, ·)) _).bind _ = _
  rw [hentries]
  exact congrArg some (Table.ofList_entries t)

/-- A list is one deeper than its items. Each of these was read off an item with finite numbers. -/
theorem KeepsFinite.list (h : KeepsFinite depth read write) :
    KeepsFinite (depth + 1) (listOf? read) (ofList write) := by
  intro n j items hj hread
  obtain ⟨values, hvalues, hread⟩ := Option.bind_eq_some_iff.1 hread
  cases hj with
  | list hj =>
    cases hvalues
    refine .list fun value hvalue => ?_
    obtain ⟨item, hitem, rfl⟩ := List.mem_map.1 hvalue
    obtain ⟨source, hsource, hitem⟩ := exists_of_mem_mapM hread hitem
    exact h _ _ _ (hj source hsource) hitem
  | null | bool | text | number | object => cases hvalues

/-- A table is one deeper than its values. The names in it are texts of no depth, and a name that
occurs twice keeps one of its values. -/
theorem KeepsFinite.table (h : KeepsFinite depth read write) :
    KeepsFinite (depth + 1) (tableOf? read) (ofTable write) := by
  intro n j t hj hread
  simp only [tableOf?, Option.bind_eq_bind, Option.bind_eq_some_iff, Option.pure_def,
    Option.some.injEq] at hread
  obtain ⟨sources, hsources, entries, hentries, rfl⟩ := hread
  cases hj with
  | object hj =>
    cases hsources
    refine .object fun field hfield => ?_
    obtain ⟨entry, hentry, rfl⟩ := List.mem_map.1 hfield
    obtain ⟨source, hsource, hentry⟩ :=
      exists_of_mem_mapM hentries (Table.mem_of_mem_ofList hentry)
    obtain ⟨x, hx, rfl⟩ := Option.map_eq_some_iff.1 hentry
    exact h _ _ _ (hj source hsource) hx
  | null | bool | text | number | list => cases hsources

theorem finite_ofList_nil : Finite (depth + 1) (ofList write []) :=
  .list fun _ h => absurd h List.not_mem_nil

theorem finite_ofTable_empty : Finite (depth + 1) (ofTable write .empty) :=
  .object fun _ h => absurd h List.not_mem_nil

/-! ### Records -/

/-- A record whose fields have names of their own is read as it is. -/
theorem record?_object {names : List String} (h : (fields.map Prod.fst).Nodup) :
    record? names (.object fields) = some fields := by
  have hcount (name : String) : (fields.filter fun field => field.1 == name).length ≤ 1 := by
    have hle := List.nodup_iff_count_le_one.1 h name
    rwa [List.count, List.countP_map, List.countP_eq_length_filter] at hle
  exact if_pos (List.all_eq_true.2 fun name _ => decide_eq_true (hcount name))

/-- Whether a record is an object, or a list that is read by the places of its items, the values of
its fields have finite numbers if it has, and they lie within some depth. -/
theorem finite_of_record? {names : List String} {n : Nat} (hj : Finite n j)
    (h : record? names j = some fields) : ∃ m, ∀ field ∈ fields, Finite m field.2 := by
  cases hj with
  | @object m _ hj =>
    rw [record?] at h
    split at h
    · cases h
      exact ⟨m, hj⟩
    · cases h
  | @list m values hj =>
    rw [record?] at h
    split at h
    · cases h
      exact ⟨m, fun field hfield => hj field.2 (List.of_mem_zip hfield).2⟩
    · cases h
  | null | bool | text | number => cases h

/-- An object is one deeper than the values of its fields, each of which is named here. -/
theorem finite_object (h : fields.Forall fun field => Finite depth field.2) :
    Finite (depth + 1) (.object fields) :=
  .object (List.forall_iff_forall_mem.1 h)

/-! ### Fields -/

theorem lookup_cons_self : ((name, value) :: fields).lookup name = some value := by
  rw [List.lookup_cons, beq_self_eq_true]

theorem lookup_cons_of_ne (hne : name ≠ other) :
    ((other, value) :: fields).lookup name = fields.lookup name := by
  rw [List.lookup_cons, beq_eq_false_iff_ne.2 hne]

/-- A field of another name is passed over. This and the two lemmas below walk past the fields of a
record, up to the one that is asked for. -/
theorem required_cons_of_ne (hne : name ≠ other) :
    required name read ((other, value) :: fields) = required name read fields := by
  rw [required, required, lookup_cons_of_ne hne]

theorem optional_cons_of_ne (hne : name ≠ other) :
    optional name read ((other, value) :: fields) = optional name read fields := by
  rw [optional, optional, lookup_cons_of_ne hne]

theorem withDefault_cons_of_ne {default : α} (hne : name ≠ other) :
    withDefault name default read ((other, value) :: fields) =
      withDefault name default read fields := by
  rw [withDefault, withDefault, lookup_cons_of_ne hne]

namespace Undoes

variable (h : Undoes read write)
include h

/-- A field that has to be there is read off what it was written as, wherever it stands first under
its name. -/
theorem required_cons (x : α) : required name read ((name, write x) :: fields) = some x := by
  rw [required, lookup_cons_self, Option.bind_some, h x]

/-- A field with a default is written out even if it has the default value, and so it is read back
without a look at the default. -/
theorem withDefault_cons {default : α} (x : α) :
    withDefault name default read ((name, write x) :: fields) = some x := by
  rw [withDefault, lookup_cons_self]
  exact h x

/-- What is written for a value must not be null, or it would be taken for an absent value. -/
theorem optional_cons (hnull : ∀ x, write x ≠ .null) (x : Option α) :
    optional name read ((name, ofOption write x) :: fields) = some x := by
  rw [optional, lookup_cons_self]
  cases x with
  | none => rfl
  | some x =>
    rw [ofOption]
    split
    · next heq => cases heq
    · next heq => exact absurd (Option.some.inj heq) (hnull x)
    · next heq =>
      cases heq
      rw [h x]
      rfl

end Undoes

/-- What is found under a name stands in a record under this name. -/
theorem mem_of_lookup (h : fields.lookup name = some value) : (name, value) ∈ fields := by
  obtain ⟨front, back, rfl, -⟩ := List.lookup_eq_some_iff.1 h
  exact List.mem_append_right _ List.mem_cons_self

namespace KeepsFinite

variable {n : Nat} (h : KeepsFinite depth read write)
  (hfields : ∀ field ∈ fields, Finite n field.2)
include h hfields

/-- A field that had to be there was read off a value with finite numbers, so it is written within
the depth of its own type, however deep that value was. -/
theorem required {x : α} (hread : required name read fields = some x) :
    Finite depth (write x) := by
  obtain ⟨value, hvalue, hread⟩ := Option.bind_eq_some_iff.1 hread
  exact h _ _ _ (hfields _ (mem_of_lookup hvalue)) hread

/-- A field with a default was read off the value under its name, or it is the default, which has
finite numbers of its own. -/
theorem withDefault {default x : α} (hdefault : Finite depth (write default))
    (hread : withDefault name default read fields = some x) : Finite depth (write x) := by
  rw [Json.withDefault] at hread
  split at hread
  · cases hread
    exact hdefault
  · next value hvalue => exact h _ _ _ (hfields _ (mem_of_lookup hvalue)) hread

/-- A field that may be absent was read off the value under its name, or it is written as null. -/
theorem optional {x : Option α} (hread : optional name read fields = some x) :
    Finite depth (ofOption write x) := by
  rw [Json.optional] at hread
  split at hread
  · cases hread
    exact .null
  · cases hread
    exact .null
  · next value _ hvalue =>
    obtain ⟨x, hx, rfl⟩ := Option.map_eq_some_iff.1 hread
    exact h _ _ _ (hfields _ (mem_of_lookup hvalue)) hx

end KeepsFinite

end ProcedureChart.Json
