import EntityQuery.Proofs.Compile.Ensures
import EntityQuery.Proofs.Ownership.Graphs

/-!
Properties of rows are new nodes or sources of the graph.

* A navigation joins tables on conditions of their own.
* A fragment is placed part by part; every part is taken by the next larger one.
-/

namespace EntityQuery

open Sql

namespace Sql.Graph

variable {g h : Graph} {L : List NodeId} {r : RequestId} {n : NodeId}

/-! ### Joins -/

lemma tended_column (hg : g.Tidy L) {a : AliasId} (ha : a.index < g.aliases.size) (c : String) :
    Tended g (⟨g.entries.size⟩ :: L) (g.add (.column a c)).2 := by
  refine tended_add (x := .column a c) hg ⟨fun b hb => ?_, by simp⟩
  cases hb
  exact ha

lemma tended_row (hg : g.Tidy L) {a : AliasId} (ha : a.index < g.aliases.size) :
    Tended g (⟨g.entries.size⟩ :: L) (g.add (.row a)).2 := by
  refine tended_add (x := .row a) hg ⟨fun b hb => ?_, by simp⟩
  cases hb
  exact ha

/-- A node that reads no source and no request takes its children. -/
lemma tended_operator {x : Node} (hg : g.Tidy (x.children ++ L)) (hsource : x.source? = none)
    (hsub : ∀ q, x ≠ .sub q) : Tended g (⟨g.entries.size⟩ :: L) (g.add x).2 := by
  refine tended_add hg ⟨fun a ha => ?_, fun q hq => absurd hq (hsub q)⟩
  rw [hsource] at ha
  cases ha

lemma tended_equate (hg : g.Tidy L) {a b : AliasId} (ha : a.index < g.aliases.size)
    (hb : b.index < g.aliases.size) (c c' : String) :
    Tended g ((g.equate a c b c').1 :: L) (g.equate a c b c').2 := by
  have hl := tended_column hg ha c
  have hr := tended_column hl.tidy (hb.trans_le hl.grows.aliases) c'
  have hboth := (hl.trans hr).only (List.Perm.swap _ _ _).subperm
  exact hboth.trans (tended_operator (x := .binary .equal _ _) hboth.tidy rfl (by simp))

lemma tended_joinEqual (hg : g.Tidy L) (hr : r.index < g.requests.size) {source a b : AliasId}
    (hsource : source.index < g.aliases.size) (ha : a.index < g.aliases.size)
    (hb : b.index < g.aliases.size) (widen : Bool) (c c' : String) :
    Tended g L (g.joinEqual r source widen a c b c') := by
  have hequate := tended_equate hg ha hb c c'
  exact hequate.trans (tended_pushJoin hequate.tidy (hr.trans_le hequate.grows.requests)
    (hsource.trans_le hequate.grows.aliases))

/-- A new table is joined, by a column of it and a column of a source. -/
lemma tended_joinTable (hg : g.Tidy L) (hr : r.index < g.requests.size) {d : Alias} (hd : d.Inside g)
    {b : AliasId} (hb : b.index < g.aliases.size) (widen : Bool) (c c' : String) :
    Tended g L ((g.addAlias d).2.joinEqual r ⟨g.aliases.size⟩ widen ⟨g.aliases.size⟩ c b c') ∧
      Tended g L ((g.addAlias d).2.joinEqual r ⟨g.aliases.size⟩ widen b c' ⟨g.aliases.size⟩ c) := by
  have hadd := tended_addAlias hg hd
  have hnew : g.aliases.size < (g.addAlias d).2.aliases.size := by
    rw [size_aliases_addAlias]
    exact Nat.lt_succ_self _
  have hb := hb.trans_le hadd.grows.aliases
  exact ⟨hadd.trans (tended_joinEqual hadd.tidy hr hnew hnew hb widen c c'),
    hadd.trans (tended_joinEqual hadd.tidy hr hnew hb hnew widen c' c)⟩

lemma tended_widenJoin (hg : g.Tidy L) (hr : r.index < g.requests.size) (a : AliasId) :
    Tended g L (g.widenJoin r a) := by
  obtain ⟨hparent, horigins⟩ := hg.closed.request r
  refine tended_modifyRequest hg hr ⟨hparent, fun b hb => horigins b ?_⟩ ?_
  · rw [Request.mem_origins] at hb ⊢
    rcases hb with hb | ⟨j, hj, rfl⟩ | hb
    · exact .inl hb
    · obtain ⟨k, hk, rfl⟩ := List.mem_map.1 hj
      refine .inr (.inl ⟨k, hk, ?_⟩)
      split <;> rfl
    · exact .inr (.inr hb)
  · have hcondition : ∀ j : Join, (if j.source = a ∨ some j.source = (g.aliasOf a).via?
        then { j with kind := .left } else j).condition = j.condition := by
      intro j
      split <;> rfl
    simp only [Request.clauseNodes, List.map_map, Function.comp_def, hcondition]
    exact (List.Perm.refl _).subperm

end Sql.Graph

open Graph

/-- What a property stands for, after steps from a graph. -/
def Resolved.Tended (g : Graph) (L : List NodeId) (h : Graph) : Resolved → Prop
  | .value n => Graph.Tended g (n :: L) h
  | .row a => Graph.Tended g L h ∧ a.index < h.aliases.size

/-! ### Mapped properties -/

namespace Mapping

variable {m : Mapping} {g h : Graph} {L : List NodeId} {r : RequestId} {owner : AliasId}
  {p : PropertyRef} {widen : Bool}

/-- A joined source of a navigation is in the graph. -/
lemma navigated?_inside (hg : g.Closed) {a : AliasId} (ha : g.navigated? r owner p = some a) :
    a.index < g.aliases.size := by
  obtain ⟨j, hj, rfl⟩ := List.mem_map.1 (List.mem_of_find?_eq_some ha)
  exact (hg.request r).2 _ (Request.mem_origins.2 (.inr (.inl ⟨j, hj, rfl⟩)))

lemma tended_joinReference (hg : g.Tidy L) (hr : r.index < g.requests.size)
    (howner : owner.index < g.aliases.size) {column target : String} :
    Ensures (m.joinReference r owner p column target widen) g fun a h =>
      Graph.Tended g L h ∧ a.index < h.aliases.size := by
  intro a h hrun
  rcases runs_joinReference.1 hrun with ⟨hnavigated, rfl⟩ | ⟨-, table, key, -, -, rfl, rfl⟩
  · have ha := navigated?_inside hg.closed hnavigated
    split
    · have hwiden := tended_widenJoin hg hr a
      exact ⟨hwiden, ha.trans_le hwiden.grows.aliases⟩
    · exact ⟨.refl hg, ha⟩
  · have hjoin := (tended_joinTable hg hr (d := { Alias.ofTable table target (some key) with
      route := .navigation owner p none }) ⟨by simp [Alias.ofTable], by simpa [Route.aliases]⟩
      howner widen key column).2
    refine ⟨hjoin, ?_⟩
    simp [joinEqual]

lemma tended_joinCollection (hg : g.Tidy L) (hr : r.index < g.requests.size)
    (howner : owner.index < g.aliases.size) {column target : String} :
    Ensures (m.joinCollection r owner p column target widen) g fun a h =>
      Graph.Tended g L h ∧ a.index < h.aliases.size := by
  intro a h hrun
  obtain ⟨table, targetKey, key, -, -, -, rfl, rfl⟩ := runs_joinCollection.1 hrun
  have hjoin := (tended_joinTable hg hr (d := { Alias.ofTable table target (some targetKey) with
    route := .navigation owner p none }) ⟨by simp [Alias.ofTable], by simpa [Route.aliases]⟩
    howner widen column key).1
  refine ⟨hjoin, ?_⟩
  simp [joinEqual]

lemma tended_joinLinked (hg : g.Tidy L) (hr : r.index < g.requests.size)
    (howner : owner.index < g.aliases.size) {target linkTable ownerColumn targetColumn : String} :
    Ensures (m.joinLinked r owner p target linkTable ownerColumn targetColumn widen) g fun a h =>
      Graph.Tended g L h ∧ a.index < h.aliases.size := by
  intro a h hrun
  obtain ⟨table, targetKey, ownerKey, -, -, -, rfl, rfl⟩ := runs_joinLinked.1 hrun
  have hlink : Graph.Tended g L (joinLink g r owner p linkTable ownerColumn ownerKey widen) :=
    (tended_joinTable hg hr ⟨by simp [linkAlias], by simpa [linkAlias, Route.aliases]⟩ howner widen
      ownerColumn ownerKey).1
  have hsize : (joinLink g r owner p linkTable ownerColumn ownerKey widen).aliases.size =
      g.aliases.size + 1 := by simp [joinLink, joinEqual]
  generalize joinLink g r owner p linkTable ownerColumn ownerKey widen = k at hlink hsize ⊢
  rw [← hsize]
  have hnew : g.aliases.size < k.aliases.size := by omega
  have hjoin := (tended_joinTable hlink.tidy (hr.trans_le hlink.grows.requests)
    (d := { Alias.ofTable table target (some targetKey) with
      route := .navigation owner p (some ⟨g.aliases.size⟩) })
    ⟨by simp [Alias.ofTable], by
      simpa [Route.aliases] using ⟨howner.trans_le hlink.grows.aliases, hnew⟩⟩
    (b := ⟨g.aliases.size⟩) hnew widen targetKey targetColumn).1
  refine ⟨hlink.trans hjoin, ?_⟩
  simp [joinEqual]

lemma tended_locate (hg : g.Tidy L) (hr : r.index < g.requests.size)
    (howner : owner.index < g.aliases.size) :
    Ensures (m.locate r owner p widen) g fun x h => x.Tended g L h := by
  intro x h hrun
  obtain ⟨stored, -, hkind⟩ := runs_locate.1 hrun
  rcases stored with ⟨name, column, kind⟩
  cases kind with
  | scalar t nullable length =>
    obtain ⟨rfl, rfl⟩ := hkind
    exact tended_column hg howner column
  | reference target =>
    obtain ⟨a, rfl, hjoin⟩ := hkind
    exact tended_joinReference hg hr howner a h hjoin
  | collection target =>
    obtain ⟨a, rfl, hjoin⟩ := hkind
    exact tended_joinCollection hg hr howner a h hjoin
  | manyToMany target link oc tc =>
    obtain ⟨a, rfl, hjoin⟩ := hkind
    exact tended_joinLinked hg hr howner a h hjoin

end Mapping

/-! ### Fragments -/

/-- Paths lead to sources of the graph that has grown from `g`. -/
def Walks (g : Graph) (walk : List PropertyRef → Resolve AliasId) : Prop :=
  ∀ path h L, g.Grows h → h.Tidy L →
    Ensures (walk path) h fun a k => Graph.Tended h L k ∧ a.index < k.aliases.size

namespace Fragment

variable {g : Graph} {walk : List PropertyRef → Resolve AliasId}

lemma tended_addOperator {h : Graph} {L : List NodeId} {x : Node} (hh : h.Tidy (x.children ++ L))
    (hsource : x.source? = none) (hsub : ∀ q, x ≠ .sub q) :
    Ensures (liftM (Build.add x) : Resolve NodeId) h fun n k => Graph.Tended h (n :: L) k :=
  ensures_lift.2 (tended_operator hh hsource hsub)

mutual
/-- A placed fragment is loose. -/
theorem tended_place (hwalk : Walks g walk) : ∀ (f : Fragment) (h : Graph) (L : List NodeId),
    g.Grows h → h.Tidy L → Ensures (f.place walk) h fun n k => Graph.Tended h (n :: L) k
  | .column path name, h, L, hgh, hh => by
    rw [place]
    refine (hwalk path h L hgh hh).bind fun a k ⟨hk, ha⟩ => ?_
    exact ensures_lift.2 (hk.trans (tended_column hk.tidy ha name))
  | .row path, h, L, hgh, hh => by
    rw [place]
    refine (hwalk path h L hgh hh).bind fun a k ⟨hk, ha⟩ => ?_
    exact ensures_lift.2 (hk.trans (tended_row hk.tidy ha))
  | .const v, h, L, hgh, hh => by
    rw [place]
    exact tended_addOperator hh rfl (by simp)
  | .unary op none, h, L, hgh, hh => by
    rw [place]
    exact tended_addOperator hh rfl (by simp)
  | .unary op (some e), h, L, hgh, hh => by
    rw [place]
    refine (tended_place hwalk e h L hgh hh).bind fun m k hk => ?_
    exact (tended_addOperator (x := .unary op (some m)) hk.tidy rfl (by simp)).mono
      fun n l hl => hk.trans hl
  | .binary op l r, h, L, hgh, hh => by
    rw [place]
    refine (tended_place hwalk l h L hgh hh).bind fun m k hk => ?_
    refine (tended_place hwalk r k _ (hgh.trans hk.grows) hk.tidy).bind fun m' k' hk' => ?_
    have hboth := (hk.trans hk').only ((List.reverse_perm [m', m]).append_right L).subperm
    exact (tended_addOperator (x := .binary op m m') hboth.tidy rfl (by simp)).mono
      fun n i hi => hboth.trans hi
  | .isIn e vs, h, L, hgh, hh => by
    rw [place]
    refine (tended_place hwalk e h L hgh hh).bind fun m k hk => ?_
    refine (tended_placeAll hwalk vs k _ (hgh.trans hk.grows) hk.tidy).bind fun ms k' hk' => ?_
    have hboth : Graph.Tended h ((m :: ms) ++ L) k' :=
      (hk.trans hk').only List.perm_middle.symm.subperm
    exact (tended_addOperator (x := .isIn m ms) hboth.tidy rfl (by simp)).mono
      fun n i hi => hboth.trans hi
  | .cond t y n, h, L, hgh, hh => by
    rw [place]
    refine (tended_place hwalk t h L hgh hh).bind fun t' h₁ hh₁ => ?_
    refine (tended_place hwalk y h₁ _ (hgh.trans hh₁.grows) hh₁.tidy).bind fun y' h₂ hh₂ => ?_
    have hh₂ := hh₁.trans hh₂
    refine (tended_place hwalk n h₂ _ (hgh.trans hh₂.grows) hh₂.tidy).bind fun n' h₃ hh₃ => ?_
    have hall := (hh₂.trans hh₃).only ((List.reverse_perm [n', y', t']).append_right L).subperm
    exact (tended_addOperator (x := .cond t' y' n') hall.tidy rfl (by simp)).mono
      fun n i hi => hall.trans hi

theorem tended_placeAll (hwalk : Walks g walk) : ∀ (fs : List Fragment) (h : Graph) (L : List NodeId),
    g.Grows h → h.Tidy L → Ensures (placeAll walk fs) h fun ns k => Graph.Tended h (ns ++ L) k
  | [], h, L, hgh, hh => by
    rw [placeAll]
    exact ensures_pure.2 (.refl hh)
  | f :: fs, h, L, hgh, hh => by
    rw [placeAll]
    refine (tended_place hwalk f h L hgh hh).bind fun m k hk => ?_
    refine (tended_placeAll hwalk fs k _ (hgh.trans hk.grows) hk.tidy).bind fun ms k' hk' => ?_
    exact ensures_pure.2 ((hk.trans hk').only List.perm_middle.symm.subperm)
end

end Fragment

/-! ### Resolution -/

namespace Mapping

variable {m : Mapping} {g : Graph} {L : List NodeId} {r : RequestId} {widen : Bool}

lemma tended_walk {resolve : AliasId → PropertyRef → Resolve Resolved}
    (hresolve : ∀ a p h L, g.Grows h → a.index < h.aliases.size → h.Tidy L →
      Ensures (resolve a p) h fun x k => x.Tended h L k)
    {owner : AliasId} (howner : owner.index < g.aliases.size) : Walks g (walk resolve owner) := by
  intro path h L hgh hh
  replace howner := howner.trans_le hgh.aliases
  induction path generalizing owner h with
  | nil => exact ensures_pure.2 ⟨.refl hh, howner⟩
  | cons p path ih =>
    refine (hresolve owner p h L hgh howner hh).bind fun x k hx => ?_
    cases x with
    | row a =>
      obtain ⟨hk, ha⟩ := hx
      refine (ih k (hgh.trans hk.grows) hk.tidy ha).mono fun b l ⟨hl, hb⟩ => ?_
      exact ⟨hk.trans hl, hb⟩
    | value n => exact ensures_throw

theorem tended_resolveWithin (fuel : Nat) (owner : AliasId) (p : PropertyRef) {g : Graph}
    (hr : r.index < g.requests.size) (howner : owner.index < g.aliases.size) (hg : g.Tidy L) :
    Ensures (m.resolveWithin r widen fuel owner p) g fun x h => x.Tended g L h := by
  induction fuel generalizing owner p g L with
  | zero =>
    rw [resolveWithin]
    cases m.equivalents.find? p with
    | none => exact tended_locate hg hr howner
    | some f => exact ensures_throw
  | succ fuel ih =>
    rw [resolveWithin]
    cases m.equivalents.find? p with
    | none => exact tended_locate hg hr howner
    | some f =>
      refine ensures_map.2 (f.tended_place (g := g) (tended_walk (fun a q h K hgh ha hh => ?_) howner)
        g L (.refl g) hg)
      exact ih a q (hr.trans_le hgh.requests) ha hh

/-- **What a property stands for** is a loose node or a source of the graph. -/
theorem tended_resolve {owner : AliasId} (p : PropertyRef) (hr : r.index < g.requests.size)
    (howner : owner.index < g.aliases.size) (hg : g.Tidy L) :
    Ensures (m.resolve r owner p widen) g fun x h => x.Tended g L h :=
  tended_resolveWithin _ owner p hr howner hg

end Mapping

end EntityQuery
