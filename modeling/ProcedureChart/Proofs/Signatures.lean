import Mathlib.Data.List.Nodup
import ProcedureChart.Proofs.Judging
import ProcedureChart.Proofs.Pools
import ProcedureChart.Proofs.Replay

/-!
# Signatures and the routes behind them

The signature of a route is the text of its nodes, and an example for a route is asked for by
signature. In a chart where no id contains the arrow and no two ways on from a node lead to the same
node, the signature tells the route (`Chart.eq_of_signature_eq`), so the example replays on the
route that was meant (`replays_of_exampleOfSignature`). In other charts the last route of the
signature is the one it replays on, and that need not be the one that was meant
(`not_replays_of_exampleOfSignature`).
-/

namespace ProcedureChart

/-! ### Signatures of node sequences -/

/-- Sequences of ids without arrows differ in their signatures. -/
theorem signatureOf_injective {a b : List String} (ha : a ≠ []) (hb : b ≠ [])
    (hplainA : ∀ id ∈ a, '→' ∉ id.toList) (hplainB : ∀ id ∈ b, '→' ∉ id.toList)
    (h : signatureOf a = signatureOf b) : a = b := by
  -- splitting at the arrows gives the ids back
  have hsplit : ∀ ids : List String, ids ≠ [] → (∀ id ∈ ids, '→' ∉ id.toList) →
      (signatureOf ids).toList.splitOn '→' = ids.map String.toList := by
    intro ids hne hplain
    rw [signatureOf, String.toList_intercalate]
    refine List.splitOn_intercalate '→' ?_ (by simpa using hne)
    intro cs hcs
    obtain ⟨id, hid, rfl⟩ := List.mem_map.1 hcs
    exact hplain id hid
  apply (List.map_inj_right fun _ _ => String.toList_injective).1
  rw [← hsplit a ha hplainA, ← hsplit b hb hplainB, h]

/-! ### Signatures of routes -/

namespace Chart

variable {c : Chart} {r p q : Route} {id : String}

/-- Whether the routes of a chart can be told apart by their signatures: no id contains the arrow
that stands between ids, and the ways on from a node lead to different nodes. -/
def isUnambiguous (c : Chart) : Bool :=
  c.definition.nodes.entries.all fun (id, node) =>
    !id.toList.contains '→' && decide ((c.branches id node).map Branch.target).Nodup

theorem isUnambiguous_of_node? {node : Node} (h : c.isUnambiguous)
    (hnode : c.node? id = some node) :
    '→' ∉ id.toList ∧ ((c.branches id node).map Branch.target).Nodup := by
  simpa using List.all_eq_true.1 h _ (Table.mem_of_find?_eq_some hnode)

/-- The nodes that a listed route adds are defined, since a listing breaks off at one that is
not. -/
theorem defined_of_mem_listing (h : p ∈ c.listing r id) :
    ∀ other ∈ p.nodeIds, other ∈ r.nodeIds ∨ ∃ node, c.node? other = some node := by
  induction hunseen : c.unseen r.nodeIds using Nat.strongRecOn generalizing r id with
  | ind n ih =>
    intro other hother
    obtain ⟨hnew, ⟨t, hnode, rfl⟩ | ⟨node, b, hnode, -, hp⟩⟩ := mem_listing_cases h
    · rcases List.mem_append.1 hother with hother | hother
      · exact .inl hother
      · exact .inr ⟨_, List.mem_singleton.1 hother ▸ hnode⟩
    · have hless : c.unseen (r.nodeIds ++ [id]) < n :=
        hunseen ▸ unseen_append_lt (Bool.eq_false_iff.1 hnew) hnode
      rcases ih _ hless hp rfl other hother with hbefore | hdefined
      · rcases List.mem_append.1 hbefore with hbefore | hbefore
        · exact .inl hbefore
        · exact .inr ⟨_, List.mem_singleton.1 hbefore ▸ hnode⟩
      · exact .inr hdefined

/-- Where the ways on from each node lead to different nodes, a listed route is told by its
nodes. -/
theorem eq_of_mem_listing (hunambiguous : c.isUnambiguous) (hp : p ∈ c.listing r id)
    (hq : q ∈ c.listing r id) (h : p.nodeIds = q.nodeIds) : p = q := by
  induction hunseen : c.unseen r.nodeIds using Nat.strongRecOn generalizing r id with
  | ind n ih =>
    obtain ⟨hnew, ⟨t, hnode, rfl⟩ | ⟨node, b, hnode, hb, hp⟩⟩ := mem_listing_cases hp
    · obtain ⟨-, ⟨t', hnode', rfl⟩ | ⟨node', b', hnode', hb', -⟩⟩ := mem_listing_cases hq
      · rfl
      · -- a terminal has no ways on
        obtain rfl := Option.some.inj (hnode.symm.trans hnode')
        cases hb'
    · obtain ⟨-, ⟨t', hnode', rfl⟩ | ⟨node', b', hnode', hb', hq⟩⟩ := mem_listing_cases hq
      · obtain rfl := Option.some.inj (hnode.symm.trans hnode')
        cases hb
      · obtain rfl := Option.some.inj (hnode.symm.trans hnode')
        -- the next node tells the way on
        obtain ⟨tail, htail⟩ := (prefix_of_mem_listing hp).1
        obtain ⟨tail', htail'⟩ := (prefix_of_mem_listing hq).1
        rw [← htail, ← htail', List.append_assoc, List.append_assoc] at h
        have htargets := List.append_cancel_left h
        have htarget : b.target = b'.target := (List.cons.inj htargets).1
        obtain ⟨-, hnodup⟩ := isUnambiguous_of_node? hunambiguous hnode
        obtain rfl : b = b' := List.inj_on_of_nodup_map hnodup hb hb' htarget
        refine ih (c.unseen (r.nodeIds ++ [id])) ?_ hp hq rfl
        exact hunseen ▸ unseen_append_lt (Bool.eq_false_iff.1 hnew) hnode

/-- The routes of an unambiguous chart differ in their signatures. -/
theorem eq_of_signature_eq (hunambiguous : c.isUnambiguous) (hp : p ∈ c.listing {} c.entry)
    (hq : q ∈ c.listing {} c.entry) (h : p.signature = q.signature) : p = q := by
  have hplain : ∀ route ∈ c.listing {} c.entry, ∀ other ∈ route.nodeIds, '→' ∉ other.toList := by
    intro route hroute other hother
    rcases defined_of_mem_listing hroute other hother with hbefore | ⟨node, hnode⟩
    · cases hbefore
    · exact (isUnambiguous_of_node? hunambiguous hnode).1
  have hne : ∀ route ∈ c.listing {} c.entry, route.nodeIds ≠ [] := by
    intro route hroute hnil
    have hentry := (prefix_of_mem_listing hroute).1
    rw [hnil] at hentry
    cases List.prefix_nil.1 hentry
  exact eq_of_mem_listing hunambiguous hp hq
    (signatureOf_injective (hne p hp) (hne q hq) (hplain p hp) (hplain q hq) h)

end Chart

/-! ### Examples of a route -/

/-- An example on target replays on the route of its target. -/
theorem Plan.replays_of_hits {p : Plan} {t : Target} {e : Example} (h : p.Hits t e) :
    e = .ofRoute t.route e.values ∧
      ∃ ctx, e.OwnContext p.chart p.userState ctx ∧ t.route.replays ctx ∧
        p.chart.walk ctx (some t.route.nodeIds) = some t.route.nodeIds := by
  obtain ⟨drawn, hdrawn⟩ := h
  obtain ⟨values, computed, -, hcomputed, -, rfl, hreplays, hwalk⟩ :=
    exists_of_judge_onTarget hdrawn
  exact ⟨rfl, p.context values computed, ⟨computed, hcomputed, rfl⟩, hreplays, hwalk⟩

/-- **An example for a route replays**: in its own context it replays and walks the last enumerated
route of the signature, by which it is labelled. Where this is the only route of the signature, as
in every unambiguous chart, it is the route that was asked for. -/
theorem replays_of_exampleOfSignature {σ : Type} [RandomSource σ] (c : Chart) (config : Config)
    (constraints : UserConstraints) (s : σ) {p : Route}
    (hp : p ∈ (c.analyze config.limits).routes) {e : Example}
    (h : ((Plan.make c config constraints).exampleOfSignature p.signature s).1 = some e) :
    ∃ ctx, e.OwnContext c constraints.toUserState ctx ∧
      (∃ q, (c.analyze config.limits).routeOf? p.signature = some q ∧ e = .ofRoute q e.values ∧
        q.replays ctx ∧ c.walk ctx (some q.nodeIds) = some q.nodeIds) ∧
      ((c.isUnambiguous ∨
          ∀ q ∈ (c.analyze config.limits).routes, q.signature = p.signature → q = p) →
        p.replays ctx ∧ c.walk ctx (some p.nodeIds) = some p.nodeIds) := by
  rw [Plan.exampleOfSignature, Plan.targetOf?_make] at h
  cases hfound : (c.analyze config.limits).routeOf? p.signature with
  | none =>
    rw [hfound] at h
    cases h
  | some q =>
    rw [hfound] at h
    obtain ⟨hlabel, ctx, hctx, hreplays, hwalk⟩ :=
      Plan.replays_of_hits (Plan.hits_of_mem_exampleFor (Option.mem_def.2 h))
    refine ⟨ctx, hctx, ⟨q, rfl, hlabel, hreplays, hwalk⟩, ?_⟩
    intro hunique
    obtain ⟨hq, hsignature⟩ := Analysis.signature_of_routeOf?_eq_some hfound
    have heq : q = p := by
      rcases hunique with hunambiguous | hunique
      · exact Chart.eq_of_signature_eq hunambiguous (Chart.mem_listing_of_mem_enumerate hq)
          (Chart.mem_listing_of_mem_enumerate hp) hsignature
      · exact hunique q hq hsignature
    exact heq ▸ ⟨hreplays, hwalk⟩

/-- A chart that takes a direct way for large numbers and a longer one for the others. -/
def forkChart (direct : String) : Chart where
  definition := {
    id := "fork"
    title := "A fork"
    problemInput := { schema := "fork", fields := [{ name := "n" }] }
    entryNode := "s"
    nodes := .ofList [
      (direct, .instruction { next := some "end" }),
      ("a", .instruction { next := some "b" }),
      ("b", .instruction { next := some "end" }),
      ("end", .terminal {}),
      ("s", .decision {
        options := [
          { label := "Yes", value := "yes", next := some direct },
          { label := "No", value := "no", next := some "a" }]
        correctAnswer := some ⟨.boolean, .ofSource "n > 5"⟩ })]
    generation := some { preferred := .ofList [("n", [.number 3, .number 9])] } }
  diagram := {}
  entry_defined := by simp [Table.ofList, Table.contains, Table.get?_insert]

/-- The example for the direct way of a fork. The two ways meet at a node, but no id contains an
arrow, so their signatures differ. -/
theorem replays_of_exampleOfSignature_fork :
    (forkChart "c").isUnambiguous ∧ ∃ p ∈ ((forkChart "c").analyze {}).routes,
      p.nodeIds = ["s", "c", "end"] ∧
      ∃ e, ((Plan.make (forkChart "c") {} {}).exampleOfSignature p.signature
          (Mulberry32.ofSeed 42)).1 = some e ∧
        ∃ ctx, e.OwnContext (forkChart "c") (UserConstraints.toUserState {}) ctx ∧
          p.replays ctx ∧ (forkChart "c").walk ctx (some p.nodeIds) = some p.nodeIds := by
  have hunambiguous : (forkChart "c").isUnambiguous = true := by decide +kernel
  have hfound : ∃ p ∈ ((forkChart "c").analyze {}).routes, p.nodeIds = ["s", "c", "end"] ∧
      ((Plan.make (forkChart "c") {} {}).exampleOfSignature p.signature
        (Mulberry32.ofSeed 42)).1.isSome := by decide +kernel
  obtain ⟨p, hp, hnodes, hsome⟩ := hfound
  obtain ⟨e, he⟩ := Option.isSome_iff_exists.1 hsome
  obtain ⟨ctx, hctx, -, hunique⟩ :=
    replays_of_exampleOfSignature (forkChart "c") {} {} (Mulberry32.ofSeed 42) hp he
  exact ⟨hunambiguous, p, hp, hnodes, e, he, ctx, hctx, hunique (.inl hunambiguous)⟩

/-- **A signature may stand for two routes.** The direct way through a node that is named like two
others with an arrow between them has the signature of the way through these two, and the example
is one of the latter. -/
theorem not_replays_of_exampleOfSignature :
    ∃ p ∈ ((forkChart "a→b").analyze {}).routes, p.nodeIds = ["s", "a→b", "end"] ∧
      ∃ e, ((Plan.make (forkChart "a→b") {} {}).exampleOfSignature p.signature
          (Mulberry32.ofSeed 42)).1 = some e ∧
        ∀ ctx, e.OwnContext (forkChart "a→b") (UserConstraints.toUserState {}) ctx →
          p.replays ctx = false ∧
            (forkChart "a→b").walk ctx (some p.nodeIds) = some ["s", "a", "b", "end"] := by
  have hfound : ∃ p ∈ ((forkChart "a→b").analyze {}).routes, p.nodeIds = ["s", "a→b", "end"] ∧
      ∃ e ∈ ((Plan.make (forkChart "a→b") {} {}).exampleOfSignature p.signature
        (Mulberry32.ofSeed 42)).1,
        p.replays { problem := e.values, userState := UserConstraints.toUserState {} } = false ∧
        (forkChart "a→b").walk { problem := e.values, userState := UserConstraints.toUserState {} }
          (some p.nodeIds) = some ["s", "a", "b", "end"] := by decide +kernel
  obtain ⟨p, hp, hnodes, e, he, hreplays, hwalk⟩ := hfound
  refine ⟨p, hp, hnodes, e, he, ?_⟩
  intro ctx hctx
  rw [hctx.eq rfl]
  exact ⟨hreplays, hwalk⟩

end ProcedureChart
