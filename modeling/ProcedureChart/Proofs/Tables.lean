import Mathlib.Data.List.Nodup
import ProcedureChart.Table

/-!
# Tables and their entries

The entries of a table have names of their own, each of which has a value. A table is part of
another one if all its values stand there as well.
-/

namespace ProcedureChart

/-- The name of an entry has a value. -/
theorem Table.contains_of_mem {α : Type} {t : Table α} {entry : String × α}
    (h : entry ∈ t.entries) : t.contains entry.1 := by
  have hfind : ∀ l : List (String × α), entry ∈ l → (find? entry.1 l).isSome := by
    intro l hl
    induction l with
    | nil => cases hl
    | cons head rest ih =>
      rw [find?]
      split
      · rfl
      · next hne =>
        refine ih ((List.mem_cons.1 hl).resolve_left fun heq => hne ?_)
        rw [heq]
  exact hfind _ h

/-- The entries of a table have names of their own. -/
theorem Table.nodup_fst_entries {α : Type} (t : Table α) : (t.entries.map Prod.fst).Nodup := by
  rw [List.Nodup, List.pairwise_map]
  refine t.sorted.imp ?_
  intro entry other hlt heq
  rw [heq] at hlt
  exact String.lt_irrefl _ hlt

/-! ### Tables of entries -/

/-- Placing an entry adds no other one. -/
theorem Table.mem_place {α : Type} {name : String} {value : α} {l : List (String × α)}
    {entry : String × α} (h : entry ∈ place name value l) : entry = (name, value) ∨ entry ∈ l := by
  induction l with
  | nil => exact .inl (List.mem_singleton.1 h)
  | cons head rest ih =>
    rw [place] at h
    split at h
    · exact List.mem_cons.1 h
    · split at h
      · exact (List.mem_cons.1 h).imp_right (List.mem_cons_of_mem _)
      · rcases List.mem_cons.1 h with rfl | h
        · exact .inr List.mem_cons_self
        · exact (ih h).imp_right (List.mem_cons_of_mem _)

/-- The entries of a table of a list are entries of the list. Of several entries with one name the
last is kept. -/
theorem Table.mem_of_mem_ofList {α : Type} {l : List (String × α)} {entry : String × α}
    (h : entry ∈ (ofList l).entries) : entry ∈ l := by
  have hfold : ∀ (l : List (String × α)) (t : Table α),
      entry ∈ (l.foldl (fun t e => t.insert e.1 e.2) t).entries →
        entry ∈ t.entries ∨ entry ∈ l := by
    intro l
    induction l with
    | nil => exact fun t h => .inl h
    | cons head rest ih =>
      intro t h
      rcases ih _ h with h | h
      · rcases mem_place h with rfl | h
        · exact .inr List.mem_cons_self
        · exact .inl h
      · exact .inr (List.mem_cons_of_mem _ h)
  exact (hfold l empty h).resolve_left List.not_mem_nil

/-- An entry behind all others is placed at the end. -/
theorem Table.place_of_lt {α : Type} {name : String} (value : α) {l : List (String × α)}
    (h : ∀ entry ∈ l, entry.1 < name) : place name value l = l ++ [(name, value)] := by
  induction l with
  | nil => rfl
  | cons head rest ih =>
    have hhead : head.1 < name := h head List.mem_cons_self
    have hne : name ≠ head.1 := fun heq => String.lt_irrefl _ (heq ▸ hhead)
    rw [place, if_neg (String.lt_asymm hhead), if_neg hne,
      ih fun entry hentry => h entry (List.mem_cons_of_mem _ hentry)]
    rfl

/-- A table is the table of its entries. They are sorted by their names, so each insertion comes
last. -/
theorem Table.ofList_entries {α : Type} (t : Table α) : ofList t.entries = t := by
  have hfold : ∀ (l : List (String × α)) (s : Table α),
      (s.entries ++ l).Pairwise (fun a b => a.1 < b.1) →
        (l.foldl (fun t e => t.insert e.1 e.2) s).entries = s.entries ++ l := by
    intro l
    induction l with
    | nil => exact fun s _ => (List.append_nil _).symm
    | cons head rest ih =>
      intro s hsorted
      have hlast : (s.insert head.1 head.2).entries = s.entries ++ [head] :=
        place_of_lt head.2 fun entry hentry =>
          (List.pairwise_append.1 hsorted).2.2 entry hentry head List.mem_cons_self
      rw [List.foldl_cons, ih _ (by rw [hlast, List.append_assoc]; exact hsorted), hlast,
        List.append_assoc]
      rfl
  have hentries : (ofList t.entries).entries = t.entries := hfold t.entries empty t.sorted
  refine ext_get? fun name => ?_
  rw [get?, get?, hentries]

/-- Every value of a table stands in another one as well. -/
def Table.PartOf {α : Type} (t other : Table α) : Prop :=
  ∀ name v, t.get? name = some v → other.get? name = some v

namespace Table.PartOf

variable {α : Type} {t other : Table α}

theorem refl (t : Table α) : t.PartOf t := fun _ _ h => h

theorem trans {third : Table α} (h : t.PartOf other) (h' : other.PartOf third) :
    t.PartOf third := fun name v hv => h' name v (h name v hv)

theorem antisymm (h : t.PartOf other) (h' : other.PartOf t) : t = other := by
  refine ext_get? fun name => ?_
  cases hother : other.get? name with
  | some v => exact h' name v hother
  | none =>
    cases ht : t.get? name with
    | none => rfl
    | some v => exact hother.symm.trans (h name v ht) |>.symm

/-- A value under a name that has none takes nothing away. -/
theorem insert_of_none {name : String} {v : α} (h : t.get? name = none) :
    t.PartOf (t.insert name v) := by
  intro name' v' hv'
  rw [get?_insert]
  split
  · next heq =>
    rw [heq, h] at hv'
    cases hv'
  · exact hv'

/-- A table with one more value is part of every table that has this value as well. -/
theorem insert {name : String} {v : α} (h : t.PartOf other) (hv : other.get? name = some v) :
    (t.insert name v).PartOf other := by
  intro name' v' hv'
  rw [get?_insert] at hv'
  split at hv'
  · next heq =>
    cases hv'
    rw [heq]
    exact hv
  · exact h name' v' hv'

theorem isSome (h : t.PartOf other) {name : String} (hname : (t.get? name).isSome) :
    (other.get? name).isSome := by
  obtain ⟨v, hv⟩ := Option.isSome_iff_exists.1 hname
  rw [h name v hv]
  rfl

end Table.PartOf

end ProcedureChart
