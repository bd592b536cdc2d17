import EntityQuery.Proofs.Copying.Assembly
import EntityQuery.Proofs.Copying.Comparing
import EntityQuery.Proofs.Copying.Facing
import Mathlib.Tactic.IntervalCases

/-!
Copies of values in assembled graphs.

* `sameNodes_duplicate`: a duplicate equals its original, has sources of its own, hangs together within
  itself, and leaves everything else as it was.
* `deleting`: a value over a request that writes a derived table. Such a table is not copied, so that the
  value and its duplicate share it.
-/

namespace EntityQuery.Sql

/-! ### Sources and ownership -/

section Owner

variable {s : Swap} {g h : Graph} {n m : NodeId} {first : Nat}

/-- The children of a copied node are part of it. -/
lemma Copied.parent?_child (hnm : Copied s g h first {} (.node n) (.node m)) {d e : NodeId}
    (hd : h.Within (.node m) (.node d)) (he : e ∈ (h.node d).children) :
    h.parent? e = some (.node d) := by
  obtain ⟨above, x, hxd⟩ := hnm.exists_faced hd
  obtain ⟨first', ren, -, -, -, -, hcopied⟩ := hnm.of_facing hxd
  cases hcopied with
  | node _ _ _ hlink _ => exact hlink e he
  | sub _ _ hnode _ =>
    rw [hnode] at he
    cases he

/-- **The values in a clause of a copied request belong to it.** Every step up leads to a younger node, so
there are no more steps than nodes. -/
theorem Copied.owner?_eq (hnm : Copied s g h first {} (.node n) (.node m)) (hh : h.Formed)
    {q : RequestId} (hq : h.Within (.node m) (.request q)) {c d : NodeId}
    (hc : c ∈ (h.request q).clauseNodes) (hcd : h.Below c d) : h.owner? d = some q := by
  suffices hup : ∀ fuel, h.entries.size ≤ fuel + d.index → h.ownerWithin fuel d = some q from
    hup _ (Nat.le_add_right _ _)
  have hwithin : ∀ {d}, h.Below c d → h.Within (.node m) (.node d) := by
    intro d hcd
    induction hcd with
    | refl => exact .tail hq (.clause hc)
    | tail _ hd ih => exact .tail ih (.child hd)
  induction hcd with
  | refl =>
    intro fuel hfuel
    have hlt := hh.closed.clause q c hc
    obtain ⟨fuel, rfl⟩ := Nat.exists_eq_succ_of_ne_zero (n := fuel) (by omega)
    obtain ⟨above, x, hxq⟩ := hnm.exists_faced hq
    obtain ⟨first', ren, -, -, -, -, hcopied⟩ := hnm.of_facing hxq
    cases hcopied with
    | request _ _ _ _ _ _ hlink _ _ _ => rw [Graph.ownerWithin, hlink c hc]
  | @tail d e hcd he ih =>
    intro fuel hfuel
    have hlt := hh.closed.child d e he
    have holder := hh.ordered d e he
    obtain ⟨fuel, rfl⟩ := Nat.exists_eq_succ_of_ne_zero (n := fuel) (by omega)
    rw [Graph.ownerWithin, hnm.parent?_child (hwithin hcd) he]
    exact ih fuel (by omega)

end Owner

namespace Graph

variable {g h : Graph} {n m : NodeId}

/-! ### Duplicates -/

/-- **A duplicate is faithful and independent.** It equals its original. Every request in it faces the
request that it is a copy of, has sources that did not exist before and owns all values in its clauses; its
parent is the copy of the parent, if that is a request around it, and else the parent itself. Everything
else is as it was. A derived table that is only written is no part of it, and is not copied. -/
theorem sameNodes_duplicate (hg : g.Assembled) (hlayered : g.Layered)
    (hdistinct : ∀ r, (g.request r).sources.Nodup) (hn : n.index < g.entries.size)
    (hnan : ∀ c v, g.Within (.node n) (.node c) → g.node c = .const v → v.holdsNaN = false) :
    ∃ m h, (Build.duplicate n).run g = (some m, h) ∧
      h.sameNodes m n = true ∧ h.sameNodes n m = true ∧
      (∀ q, h.Within (.node m) (.request q) →
        (∃ above r, Facing g h n m above (.request r) (.request q)) ∧
        (∀ a ∈ (h.request q).sources, g.aliases.size ≤ a.index) ∧
        ∀ c ∈ (h.request q).clauseNodes, ∀ d, h.Below c d → h.owner? d = some q) ∧
      (∀ above r q, Facing g h n m above (.request r) (.request q) →
        (h.request q).parent = (g.request r).parent.map fun p => (above.lookup p).getD p) ∧
      g.Intact h := by
  have hformed := hg.formed
  have hends := hlayered.ends hformed.ordered hformed.closed (.node n)
  obtain ⟨m, h, hrun⟩ := exists_copy hformed.closed hends hn {}
  obtain ⟨hextended, hm⟩ := newCopy_copy hformed (Swap.inside_nothing g) hn hrun
  have htame : ∀ z, g.Within (.node n) z → Tame {} g (fun _ => True) z := by
    intro z hz
    cases z with
    | node c => exact ⟨fun v hv => ⟨rfl, v.equals_self (hnan c v hz hv)⟩, fun _ _ => trivial⟩
    | request r => exact ⟨hdistinct r, fun _ _ => rfl, fun _ _ => trivial⟩
  have hakin : Akin h (fun a b => a = b) (.node n) (.node m) := by
    refine (hm.copied.akin hformed (Swap.inside_nothing g) hextended.intact hn htame nofun).mono ?_
    rintro a b ⟨-, -, hab⟩
    exact hab
  have hsymm : Akin h (fun a b => a = b) (.node m) (.node n) := hakin.symm.mono fun _ _ => Eq.symm
  have hclosed := hextended.formed.closed
  refine ⟨m, h, hrun, hsymm.sameNodes hclosed hm.inside,
    hakin.sameNodes hclosed (hn.trans_le hextended.grows.entries), fun q hq => ?_, fun above r q hrq => ?_,
    hextended.intact⟩
  · obtain ⟨above, x, hxq⟩ := hm.copied.exists_faced hq
    obtain ⟨first', ren, -, -, -, -, hcopied⟩ := hm.copied.of_facing hxq
    have howner := fun c hc d hcd => hm.copied.owner?_eq hextended.formed hq (c := c) hc (d := d) hcd
    cases x with
    | node c => cases hcopied
    | request r =>
      exact ⟨⟨above, r, hxq⟩, fun a ha => hcopied.size_le_of_mem_sources ha, howner⟩
  · obtain ⟨first', ren, -, rfl, -, -, hcopied⟩ := hm.copied.of_facing hrq
    cases hcopied with
    | request _ _ _ _ _ hparent _ _ _ _ => exact hparent

/-- The orders with a line: a value over a request that reads an alias from outside. -/
def correlated : Graph :=
  let g := ({} : Graph)
  let g := (g.addAlias (.ofTable "ORDER" "Order" (some "ID"))).2
  let g := (g.addAlias (.ofTable "ORDER" "Order" (some "ID"))).2
  let g := (g.addAlias (.ofTable "ORDER_LINE" "OrderLine" (some "ID"))).2
  let g := (g.addRequest none).2
  let g := g.modifyRequest ⟨0⟩ ({ · with base := some ⟨2⟩ })
  let g := (g.add (.column ⟨2⟩ "ORDER_ID")).2
  let g := (g.add (.column ⟨0⟩ "ID")).2
  let g := (g.add (.binary .equal ⟨0⟩ ⟨1⟩)).2
  let g := g.andFilter ⟨0⟩ ⟨2⟩
  let g := (g.add (.sub ⟨0⟩)).2
  (g.add (.unary .exists (some ⟨3⟩))).2

lemma assembled_correlated : correlated.Assembled := by
  refine .tail ?_ (.add ⟨nofun, nofun⟩ (by decide))
  refine .tail ?_ (.add ⟨nofun, by rintro _ ⟨⟩; decide⟩ (by decide))
  refine .tail ?_ (.andFilter (by decide) (by decide))
  refine .tail ?_ (.add ⟨nofun, nofun⟩ (by decide))
  refine .tail ?_ (.add ⟨by rintro _ ⟨⟩; decide, nofun⟩ (by decide))
  refine .tail ?_ (.add ⟨by rintro _ ⟨⟩; decide, nofun⟩ (by decide))
  refine .tail ?_ (.modifyRequest ⟨⟨nofun, by decide⟩, nofun, rfl⟩)
  refine .tail ?_ (.addRequest nofun)
  refine .tail ?_ (.addAlias ⟨nofun, nofun⟩)
  refine .tail ?_ (.addAlias ⟨nofun, nofun⟩)
  refine .tail .refl (.addAlias ⟨nofun, nofun⟩)

lemma acyclic_correlated : correlated.Acyclic := by
  refine acyclic_of_older assembled_correlated.formed.ordered ?_ ?_
  · rintro ⟨m⟩ s hm
    have hlt := lt_size_of_node_eq_sub hm
    change m < 5 at hlt
    interval_cases m <;> cases hm
    decide
  · rintro r ⟨a⟩ - s hs
    by_cases hlt : a < 3
    · interval_cases a <;> cases hs
    · have hout : correlated.aliasOf ⟨a⟩ = _ := dif_neg hlt
      rw [hout] at hs
      cases hs

lemma layered_correlated : correlated.Layered := acyclic_correlated.layered

lemma request_correlated (r : RequestId) : r = ⟨0⟩ ∨ correlated.request r = {} := by
  by_cases hlt : r.index < 1
  · obtain ⟨r⟩ := r
    exact .inl (congrArg RequestId.mk (Nat.lt_one_iff.1 hlt))
  · exact .inr (request_of_size_le (Nat.not_lt.1 hlt))

lemma nodup_correlated (r : RequestId) : (correlated.request r).sources.Nodup := by
  rcases request_correlated r with rfl | hr
  · decide
  · rw [hr]
    exact List.nodup_nil

lemma holdsNaN_correlated {n : NodeId} {v : Value} (hn : correlated.node n = .const v) :
    v.holdsNaN = false := by
  by_cases hlt : n.index < 5
  · obtain ⟨n⟩ := n
    interval_cases n <;> cases hn
  · rw [node_of_size_le (Nat.not_lt.1 hlt)] at hn
    cases hn
    rfl

theorem sameNodes_duplicate_correlated : correlated.Assembled ∧ correlated.Layered ∧
    (∀ r, (correlated.request r).sources.Nodup) ∧ 4 < correlated.entries.size ∧
    (∀ c v, correlated.Within (.node ⟨4⟩) (.node c) → correlated.node c = .const v → v.holdsNaN = false) ∧
    ∃ m h, (Build.duplicate ⟨4⟩).run correlated = (some m, h) ∧
      h.sameNodes m ⟨4⟩ = true ∧ h.sameNodes ⟨4⟩ m = true := by
  have hlt : 4 < correlated.entries.size := by decide
  have hnan : ∀ c v, correlated.Within (.node ⟨4⟩) (.node c) → correlated.node c = .const v →
      v.holdsNaN = false := fun c v _ hc => holdsNaN_correlated hc
  obtain ⟨m, h, hrun, hmn, hnm, -⟩ := sameNodes_duplicate assembled_correlated layered_correlated
    nodup_correlated hlt hnan
  exact ⟨assembled_correlated, layered_correlated, nodup_correlated, hlt, hnan, m, h, hrun, hmn, hnm⟩

/-- The alias of a derived table, over the request that reads an alias from outside, and a value over a
request that deletes from the table `t`. -/
def deleting (t : AliasId) : Graph :=
  let g := (correlated.addAlias (.derived ⟨0⟩)).2
  let g := (g.addRequest none).2
  let g := g.modifyRequest ⟨1⟩ ({ · with kind := .delete, target := some t })
  (g.add (.sub ⟨1⟩)).2

section Deleting

variable {t : AliasId}

lemma assembled_deleting (ht : t.index < 4) : (deleting t).Assembled := by
  refine .tail ?_ (.add ⟨by simp [Node.source?], ?_⟩ (by simp [Node.children]))
  · refine .tail ?_ (.modifyRequest ⟨⟨by rintro _ ⟨⟩, ?_⟩, by rintro _ ⟨⟩, rfl⟩)
    · refine .tail ?_ (.addRequest (by simp))
      exact .tail assembled_correlated (.addAlias ⟨by rintro _ ⟨⟩; decide, by rintro _ ⟨⟩⟩)
    · rintro c hc
      cases List.mem_singleton.1 hc
      exact ht
  · rintro _ ⟨⟩
    exact Nat.lt_succ_self 1

lemma nests_deleting (ht : t.index < 4) {r s : RequestId} (h : (deleting t).Nests r s) :
    r = ⟨1⟩ ∧ s = ⟨0⟩ := by
  have hr := lt_size_of_nests h
  change r.index < 2 at hr
  obtain ⟨r⟩ := r
  rcases h with ⟨c, hc, ⟨d⟩, hcd, hd⟩ | ⟨a, ha, hs⟩
  · interval_cases r
    · cases List.mem_singleton.1 hc
      have hle := hcd.le (assembled_deleting ht).formed.ordered
      change d ≤ 2 at hle
      interval_cases d <;> cases hd
    · cases hc
  · interval_cases r
    · cases List.mem_singleton.1 ha
      cases hs
    · cases List.mem_singleton.1 ha
      obtain ⟨t⟩ := t
      change t < 4 at ht
      interval_cases t <;> cases hs
      exact ⟨rfl, rfl⟩

lemma acyclic_deleting (ht : t.index < 4) : (deleting t).Acyclic := by
  intro r hr
  obtain ⟨s, hrs, -⟩ := Relation.TransGen.head'_iff.1 hr
  obtain ⟨q, -, hqr⟩ := Relation.TransGen.tail'_iff.1 hr
  cases (nests_deleting ht hrs).1.symm.trans (nests_deleting ht hqr).2

lemma nodup_deleting (t : AliasId) (r : RequestId) : ((deleting t).request r).sources.Nodup := by
  by_cases hlt : r.index < 2
  · obtain ⟨r⟩ := r
    interval_cases r
    · exact List.nodup_singleton _
    · exact List.nodup_nil
  · rw [request_of_size_le (Nat.not_lt.1 hlt)]
    exact List.nodup_nil

lemma holdsNaN_deleting (t : AliasId) {n : NodeId} {v : Value} (hn : (deleting t).node n = .const v) :
    v.holdsNaN = false := by
  by_cases hlt : n.index < 6
  · obtain ⟨n⟩ := n
    interval_cases n <;> cases hn
  · rw [node_of_size_le (Nat.not_lt.1 hlt)] at hn
    cases hn
    rfl

end Deleting

/-- A derived table that is written is not copied: the request behind it, with all its sources, is shared by
the value and its duplicate. -/
theorem sameNodes_duplicate_deleting : (deleting ⟨3⟩).Assembled ∧ (deleting ⟨3⟩).Acyclic ∧
    (∀ r, ((deleting ⟨3⟩).request r).sources.Nodup) ∧
    (∀ c v, (deleting ⟨3⟩).node c = .const v → v.holdsNaN = false) ∧
    ∃ m h q a, (Build.duplicate ⟨5⟩).run (deleting ⟨3⟩) = (some m, h) ∧
      Relation.ReflTransGen h.Holds (.node m) (.request q) ∧ a ∈ (h.request q).sources ∧
      a.index < (deleting ⟨3⟩).aliases.size := by
  refine ⟨assembled_deleting (by decide), acyclic_deleting (by decide), nodup_deleting _,
    fun _ _ => holdsNaN_deleting _, ⟨6⟩, ((Build.duplicate ⟨5⟩).run (deleting ⟨3⟩)).2, ⟨0⟩, ⟨2⟩, rfl, ?_,
    by decide, by decide⟩
  have hsub : (((Build.duplicate ⟨5⟩).run (deleting ⟨3⟩)).2.node ⟨6⟩) = .sub ⟨2⟩ := rfl
  exact .tail (.single (.sub hsub)) (.source (a := ⟨3⟩) (by decide) rfl)

end Graph

end EntityQuery.Sql
