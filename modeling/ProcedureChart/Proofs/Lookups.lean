import ProcedureChart.Generate.Run

/-!
# Tables that agree

The key of a table decides only about value sets that differ in the signs of zeros. Where no two
examples of a pool differ in nothing else (`SignsAgree`), every table finds what is equal to
something in it (`Lookup.exactOn_of_signsAgree`), and with whatever keys a selection was made, it is
the same (`selectDiverse_congr`).
-/

namespace ProcedureChart

/-- Among some value sets a table finds those that are equal to one put into it, and no others. -/
def Lookup.ExactOn (lookup : Lookup) (vs : List Scope) : Prop :=
  ∀ seen, seen ⊆ vs → ∀ v ∈ vs, lookup.finds seen v = seen.any fun w => w.equals v

/-- All tables of a selection are exact among the value sets of a pool. -/
def Tables.ExactOn (tables : Tables) (pool : List Example) : Prop :=
  ∀ d, (tables d).ExactOn (pool.map Example.values)

/-- Examples of a pool that are equal in their values are equal in the signs of zeros as well. -/
def SignsAgree (pool : List Example) : Prop :=
  ∀ e ∈ pool, ∀ other ∈ pool, e.values.equals other.values → e.values = other.values

instance (pool : List Example) : Decidable (SignsAgree pool) :=
  inferInstanceAs (Decidable (∀ e ∈ pool, ∀ other ∈ pool, _ → _))

variable {lookup lookup' : Lookup} {tables tables' : Tables} {vs ws : List Scope}
  {pool : List Example}

namespace Lookup

/-- Fewer value sets leave less to the key. -/
theorem ExactOn.mono (h : lookup.ExactOn ws) (hsubset : vs ⊆ ws) : lookup.ExactOn vs :=
  fun seen hseen v hv => h seen (fun _ hw => hsubset (hseen hw)) v (hsubset hv)

/-- A table that goes by values finds just what is equal to something in it. -/
theorem exactOn_byValues (vs : List Scope) : byValues.ExactOn vs := fun _ _ _ _ => rfl

/-- If signs agree, what is equal to something in a table is in it bit by bit, and this is where a
table has no choice but to find it. -/
theorem exactOn_of_signsAgree (lookup : Lookup) (h : SignsAgree pool) :
    lookup.ExactOn (pool.map Example.values) := by
  intro seen hseen v hv
  refine Bool.eq_iff_iff.2 ⟨fun hfinds => List.any_eq_true.2 (lookup.equals_of_finds hfinds),
    fun hany => ?_⟩
  obtain ⟨w, hw, hequals⟩ := List.any_eq_true.1 hany
  obtain ⟨e, he, rfl⟩ := List.mem_map.1 (hseen hw)
  obtain ⟨other, hother, rfl⟩ := List.mem_map.1 hv
  have hsame := h e he other hother hequals
  rw [hsame] at hw hequals
  exact lookup.finds_of_mem hw hequals

end Lookup

theorem Tables.exactOn_byValues (pool : List Example) : Tables.byValues.ExactOn pool :=
  fun _ => Lookup.exactOn_byValues _

/-- If the examples of a pool agree in their signs, its keys have nothing to decide in any group. -/
theorem Tables.exactOn_of_signsAgree (tables : Tables) (h : SignsAgree pool) :
    tables.ExactOn pool :=
  fun d => (tables d).exactOn_of_signsAgree h

/-! ### Selections -/

namespace Group

/-- Tables that are exact among some examples and those seen before them keep the same ones.
Exactness passes on to the rest of the examples, whether the first one is kept or not. -/
theorem distinct_congr {seen : List Scope}
    (h : lookup.ExactOn (seen ++ pool.map Example.values))
    (h' : lookup'.ExactOn (seen ++ pool.map Example.values)) :
    distinct lookup seen pool = distinct lookup' seen pool := by
  induction pool generalizing seen with
  | nil => rfl
  | cons e rest ih =>
    have hmem : e.values ∈ seen ++ (e :: rest).map Example.values :=
      List.mem_append_right _ List.mem_cons_self
    have hseen : seen ⊆ seen ++ (e :: rest).map Example.values := List.subset_append_left _ _
    have hskip : seen ++ rest.map Example.values ⊆ seen ++ (e :: rest).map Example.values :=
      List.append_subset.2 ⟨hseen, fun v hv =>
        List.mem_append_right _ (List.mem_cons_of_mem _ hv)⟩
    have hkeep : (e.values :: seen) ++ rest.map Example.values ⊆
        seen ++ (e :: rest).map Example.values :=
      List.cons_subset.2 ⟨hmem, hskip⟩
    rw [distinct, distinct, h seen hseen _ hmem, h' seen hseen _ hmem,
      ih (h.mono hskip) (h'.mono hskip), ih (h.mono hkeep) (h'.mono hkeep)]

/-- A group is put together from examples of the pool, so tables that are exact for the pool make
the same group. -/
theorem ofPool_congr (h : tables.ExactOn pool) (h' : tables'.ExactOn pool) (d : String) :
    ofPool tables d pool = ofPool tables' d pool := by
  have hsubset : (pool.filter fun e => e.descriptor == d).map Example.values ⊆
      pool.map Example.values := List.map_subset _ List.filter_sublist.subset
  rw [ofPool, ofPool, distinct_congr ((h d).mono hsubset) ((h' d).mono hsubset)]

/-- The order of the groups depends on the examples in them only, so it is the same as well. -/
theorem groups_congr (h : tables.ExactOn pool) (h' : tables'.ExactOn pool) :
    groups tables pool = groups tables' pool := by
  simp only [groups, ofPool_congr h h']

end Group

/-- **The keys make no difference** to a selection from a pool for which the tables are exact. They
are asked only when groups are put together, and all that comes afterwards depends on the groups. -/
theorem selectDiverse_congr {σ : Type} [RandomSource σ] (h : tables.ExactOn pool)
    (h' : tables'.ExactOn pool) (count : Nat) (s : σ) :
    selectDiverse pool count s tables = selectDiverse pool count s tables' := by
  rw [selectDiverse, selectDiverse, Group.groups_congr h h']

end ProcedureChart
