import EntityQuery.Proofs.Compile.Ensures
import EntityQuery.Proofs.Nesting.Graphs

/-!
Properties of rows, resolved while requests are being built.

* A navigation joins tables, and a fragment holds no request; so what a property stands for holds
  none of the requests that are being built.
* A relation to many is joined anew, so no request is over the row it leads to.
-/

namespace EntityQuery

open Sql

/-- Whether a property is a mapped relation to many. -/
def Catalog.relates (c : Catalog) (p : PropertyRef) : Bool :=
  match c.propertyMapping p with
  | .ok ⟨_, _, .collection _⟩ => true
  | .ok ⟨_, _, .manyToMany _ _ _ _⟩ => true
  | _ => false

namespace Sql.Graph

variable {g h : Graph} {C : List RequestId} {r : RequestId}

/-! ### Joins -/

section Joins

variable (hg : g.Open C)
include hg

lemma built_equate (a : AliasId) (c : String) (b : AliasId) (c' : String) :
    Built C g (g.equate a c b c').2 ∧ (g.equate a c b c').2.Fit C (g.equate a c b c').1 := by
  have hleaf : ∀ (k : Graph), k.Open C → ∀ d e, Built C k (k.add (.column d e)).2 ∧
      (k.add (.column d e)).2.Fit C ⟨k.entries.size⟩ := by
    intro k hk d e
    exact ⟨.add hk (by simp [Node.children]) (by simp), hk.fit_add (by simp [Node.children]) (by simp)⟩
  obtain ⟨hl, hfitl⟩ := hleaf g hg a c
  obtain ⟨hr, hfitr⟩ := hleaf _ hl.opened b c'
  have hchildren : ∀ n ∈ (Node.binary .equal (g.add (.column a c)).1
      ((g.add (.column a c)).2.add (.column b c')).1).children,
      ((g.add (.column a c)).2.add (.column b c')).2.Fit C n :=
    Node.forall_children_binary (hfitl.later hr.extension hl.opened.ordered) hfitr
  refine ⟨(hl.trans hr).trans (.add hr.opened (fun n hn => (hchildren n hn).inside) (by simp)), ?_⟩
  exact hr.opened.fit_add hchildren (by simp)

variable (hr : r ∈ C)
include hr

/-- A table is joined on equal columns. -/
lemma built_joinEqual {source : AliasId} (hsource : source.index < g.aliases.size)
    (htable : ∀ s, (g.aliasOf source).origin ≠ .request s) (widen : Bool) (a : AliasId) (c : String)
    (b : AliasId) (c' : String) : Built C g (g.joinEqual r source widen a c b c') := by
  obtain ⟨hbuilt, hfit⟩ := built_equate hg a c b c'
  refine hbuilt.trans (built_pushJoin hbuilt.opened hr hfit ?_ fun s hs => ?_)
  · rw [aliases_equate]
    exact hsource
  · rw [aliasOf_equate] at hs
    exact absurd hs (htable s)

/-- A new table is joined on equal columns. -/
lemma built_joinTable {d : Alias} (hd : ∀ s, d.origin ≠ .request s) (widen : Bool) (a : AliasId)
    (c : String) (b : AliasId) (c' : String) :
    Built C g ((g.addAlias d).2.joinEqual r ⟨g.aliases.size⟩ widen a c b c') := by
  have hadd := Built.addAlias hg (d := d) fun s hs => absurd hs (hd s)
  refine hadd.trans (built_joinEqual hadd.opened hr (by simp) (fun s => ?_) widen a c b c')
  rw [aliasOf_addAlias_self]
  exact hd s

lemma built_widenJoin (a : AliasId) : Built C g (g.widenJoin r a) := by
  refine .amend hg hr ⟨rfl, rfl, rfl, fun j hj => ?_⟩ fun n hn => .inl ?_
  · obtain ⟨k, hk, rfl⟩ := List.mem_map.1 hj
    refine ⟨k, hk, ?_⟩
    split <;> rfl
  · rw [Request.mem_clauseNodes] at hn ⊢
    rcases hn with ⟨j, hj, rfl⟩ | hn
    · obtain ⟨k, hk, rfl⟩ := List.mem_map.1 hj
      refine .inl ⟨k, hk, ?_⟩
      split <;> rfl
    · exact .inr hn

end Joins

/-- A source joined anew is the base of no request. -/
lemma base_ne_of_size_le (hg : g.Open C) {a : AliasId} (ha : g.aliases.size ≤ a.index) (q : RequestId) :
    (g.request q).base ≠ some a := by
  intro hbase
  have hlt := hg.source q a (Request.mem_origins.2 (.inl hbase))
  omega

lemma base_joinEqual (source : AliasId) (widen : Bool) (a : AliasId) (c : String) (b : AliasId)
    (c' : String) (q : RequestId) :
    ((g.joinEqual r source widen a c b c').request q).base = (g.request q).base := by
  unfold joinEqual pushJoin
  by_cases hq : q = r
  · subst hq
    by_cases hlt : q.index < (g.equate a c b c').2.requests.size
    · rw [request_modifyRequest_self _ _ (by simpa using hlt), request_attach, request_equate]
    · have hsize : ∀ k : Graph, k.requests.size ≤ q.index → (k.request q).base = none := fun k hk => by
        rw [request_of_size_le hk]
      rw [hsize, hsize]
      · simpa using hlt
      · simpa using hlt
  · rw [request_modifyRequest_of_ne _ _ hq, request_attach, request_equate]

end Sql.Graph

/-! ### Properties -/

/-- A property resolved in a request that is built: a value of it fits, and nothing is over the row
that a relation to many leads to. -/
def Resolved.Fits (C : List RequestId) (h : Graph) (relates : Bool) : Resolved → Prop
  | .value n => h.Fit C n
  | .row a => relates = true → ∀ q, (h.request q).base ≠ some a

namespace Mapping

open Graph

variable {m : Mapping} {g : Graph} {C : List RequestId} {r : RequestId} {owner : AliasId}
  {p : PropertyRef} {widen : Bool}

lemma ensures_joinReference (hg : g.Open C) (hr : r ∈ C) {column target : String} :
    Ensures (m.joinReference r owner p column target widen) g fun _ h => Built C g h := by
  intro a h hrun
  rcases runs_joinReference.1 hrun with ⟨-, rfl⟩ | ⟨-, table, key, -, -, rfl, rfl⟩
  · split
    · exact built_widenJoin hg hr a
    · exact .refl hg
  · exact built_joinTable hg hr (by simp [Alias.ofTable]) _ _ _ _ _

lemma ensures_joinCollection (hg : g.Open C) (hr : r ∈ C) {column target : String} :
    Ensures (m.joinCollection r owner p column target widen) g fun a h =>
      Built C g h ∧ ∀ q, (h.request q).base ≠ some a := by
  intro a h hrun
  obtain ⟨table, targetKey, key, -, -, -, rfl, rfl⟩ := runs_joinCollection.1 hrun
  refine ⟨built_joinTable hg hr (by simp [Alias.ofTable]) _ _ _ _ _, fun q => ?_⟩
  rw [base_joinEqual]
  exact base_ne_of_size_le hg le_rfl q

lemma ensures_joinLinked (hg : g.Open C) (hr : r ∈ C)
    {target linkTable ownerColumn targetColumn : String} :
    Ensures (m.joinLinked r owner p target linkTable ownerColumn targetColumn widen) g fun a h =>
      Built C g h ∧ ∀ q, (h.request q).base ≠ some a := by
  intro a h hrun
  obtain ⟨table, targetKey, ownerKey, -, -, -, rfl, rfl⟩ := runs_joinLinked.1 hrun
  have hlink : Built C g (joinLink g r owner p linkTable ownerColumn ownerKey widen) :=
    built_joinTable hg hr (by simp [linkAlias]) _ _ _ _ _
  have hsize : (joinLink g r owner p linkTable ownerColumn ownerKey widen).aliases.size =
      g.aliases.size + 1 := by simp [joinLink, Graph.joinEqual, Graph.pushJoin]
  generalize joinLink g r owner p linkTable ownerColumn ownerKey widen = k at hlink hsize ⊢
  rw [← hsize]
  refine ⟨hlink.trans (built_joinTable hlink.opened hr (by simp [Alias.ofTable]) _ _ _ _ _), fun q => ?_⟩
  rw [base_joinEqual]
  exact base_ne_of_size_le hlink.opened le_rfl q

lemma ensures_locate (hg : g.Open C) (hr : r ∈ C) :
    Ensures (m.locate r owner p widen) g fun x h =>
      Built C g h ∧ x.Fits C h (m.catalog.relates p) := by
  intro x h hrun
  obtain ⟨stored, hstored, hkind⟩ := runs_locate.1 hrun
  rcases stored with ⟨name, column, kind⟩
  cases kind with
  | scalar t nullable length =>
    obtain ⟨rfl, rfl⟩ := hkind
    exact ⟨.add hg (by simp [Node.children]) (by simp),
      hg.fit_add (by simp [Node.children]) (by simp)⟩
  | reference target =>
    obtain ⟨a, rfl, hjoin⟩ := hkind
    refine ⟨ensures_joinReference hg hr a h hjoin, fun hrelates => ?_⟩
    simp [Catalog.relates, hstored] at hrelates
  | collection target =>
    obtain ⟨a, rfl, hjoin⟩ := hkind
    obtain ⟨hbuilt, hbase⟩ := ensures_joinCollection hg hr a h hjoin
    exact ⟨hbuilt, fun _ => hbase⟩
  | manyToMany target link oc tc =>
    obtain ⟨a, rfl, hjoin⟩ := hkind
    obtain ⟨hbuilt, hbase⟩ := ensures_joinLinked hg hr a h hjoin
    exact ⟨hbuilt, fun _ => hbase⟩

end Mapping

/-! ### Fragments -/

namespace Fragment

open Graph

variable {C : List RequestId} {walk : List PropertyRef → Resolve AliasId}

/-- A node whose parts fit is added. -/
lemma ensures_add {g : Graph} (hg : g.Open C) {x : Node} (hx : ∀ c ∈ x.children, g.Fit C c)
    (hsub : ∀ s, x ≠ .sub s) :
    Ensures (liftM (Build.add x) : Resolve NodeId) g fun n h => Built C g h ∧ h.Fit C n :=
  ensures_lift.2 ⟨.add hg (fun c hc => (hx c hc).inside) fun s hs => absurd hs (hsub s),
    hg.fit_add hx fun s hs => absurd hs (hsub s)⟩

mutual
/-- A fragment holds no request. -/
theorem ensures_place (hwalk : ∀ path g, g.Open C → Ensures (walk path) g fun _ h => Built C g h) :
    ∀ (f : Fragment) (g : Graph), g.Open C →
      Ensures (f.place walk) g fun n h => Built C g h ∧ h.Fit C n
  | .column path name, g, hg => by
    rw [place]
    refine (hwalk path g hg).bind fun a h hh => ?_
    refine (ensures_add hh.opened (by simp [Node.children]) (by simp)).mono ?_
    exact fun n k ⟨hk, hn⟩ => ⟨hh.trans hk, hn⟩
  | .row path, g, hg => by
    rw [place]
    refine (hwalk path g hg).bind fun a h hh => ?_
    refine (ensures_add hh.opened (by simp [Node.children]) (by simp)).mono ?_
    exact fun n k ⟨hk, hn⟩ => ⟨hh.trans hk, hn⟩
  | .const v, g, hg => by
    rw [place]
    exact ensures_add hg (by simp [Node.children]) (by simp)
  | .unary op none, g, hg => by
    rw [place]
    exact ensures_add hg (by simp [Node.children]) (by simp)
  | .unary op (some e), g, hg => by
    rw [place]
    refine (ensures_place hwalk e g hg).bind fun m h ⟨hh, hm⟩ => ?_
    refine (ensures_add hh.opened (fun c hc => ?_) (by simp)).mono
      fun n k ⟨hk, hn⟩ => ⟨hh.trans hk, hn⟩
    obtain rfl : c = m := by simpa [Node.children] using hc
    exact hm
  | .binary op l r, g, hg => by
    rw [place]
    refine (ensures_place hwalk l g hg).bind fun m h ⟨hh, hm⟩ => ?_
    refine (ensures_place hwalk r h hh.opened).bind fun m' h' ⟨hh', hm'⟩ => ?_
    refine (ensures_add hh'.opened (fun c hc => ?_) (by simp)).mono
      fun n k ⟨hk, hn⟩ => ⟨(hh.trans hh').trans hk, hn⟩
    have hm := hm.later hh'.extension hh.opened.ordered
    rcases (by simpa [Node.children] using hc : c = m ∨ c = m') with rfl | rfl
    · exact hm
    · exact hm'
  | .isIn e vs, g, hg => by
    rw [place]
    refine (ensures_place hwalk e g hg).bind fun m h ⟨hh, hm⟩ => ?_
    refine (ensures_placeAll hwalk vs h hh.opened).bind fun ms h' ⟨hh', hms⟩ => ?_
    refine (ensures_add hh'.opened (fun c hc => ?_) (by simp)).mono
      fun n k ⟨hk, hn⟩ => ⟨(hh.trans hh').trans hk, hn⟩
    have hm := hm.later hh'.extension hh.opened.ordered
    rcases (by simpa [Node.children] using hc : c = m ∨ c ∈ ms) with rfl | hc
    · exact hm
    · exact hms c hc
  | .cond t y n, g, hg => by
    rw [place]
    refine (ensures_place hwalk t g hg).bind fun t' h₁ ⟨hh₁, ht⟩ => ?_
    refine (ensures_place hwalk y h₁ hh₁.opened).bind fun y' h₂ ⟨hh₂, hy⟩ => ?_
    refine (ensures_place hwalk n h₂ hh₂.opened).bind fun n' h₃ ⟨hh₃, hn⟩ => ?_
    refine (ensures_add hh₃.opened (fun c hc => ?_) (by simp)).mono
      fun n k ⟨hk, hn⟩ => ⟨((hh₁.trans hh₂).trans hh₃).trans hk, hn⟩
    have ht := (ht.later hh₂.extension hh₁.opened.ordered).later hh₃.extension hh₂.opened.ordered
    have hy := hy.later hh₃.extension hh₂.opened.ordered
    rcases (by simpa [Node.children] using hc : c = t' ∨ c = y' ∨ c = n') with rfl | rfl | rfl
    · exact ht
    · exact hy
    · exact hn

theorem ensures_placeAll (hwalk : ∀ path g, g.Open C → Ensures (walk path) g fun _ h => Built C g h) :
    ∀ (fs : List Fragment) (g : Graph), g.Open C →
      Ensures (placeAll walk fs) g fun ns h => Built C g h ∧ ∀ n ∈ ns, h.Fit C n
  | [], g, hg => by
    rw [placeAll]
    exact ensures_pure.2 ⟨.refl hg, by simp⟩
  | f :: fs, g, hg => by
    rw [placeAll]
    refine (ensures_place hwalk f g hg).bind fun m h ⟨hh, hm⟩ => ?_
    refine (ensures_placeAll hwalk fs h hh.opened).bind fun ms k ⟨hk, hms⟩ => ?_
    refine ensures_pure.2 ⟨hh.trans hk, fun n hn => ?_⟩
    rcases List.mem_cons.1 hn with rfl | hn
    · exact hm.later hk.extension hh.opened.ordered
    · exact hms n hn
end

end Fragment

/-! ### Resolution -/

namespace Mapping

open Graph

variable {m : Mapping} {C : List RequestId} {r : RequestId} {widen : Bool}

lemma ensures_walk {resolve : AliasId → PropertyRef → Resolve Resolved}
    (h : ∀ a p g, g.Open C → Ensures (resolve a p) g fun _ k => Built C g k)
    (path : List PropertyRef) (owner : AliasId) (g : Graph) (hg : g.Open C) :
    Ensures (walk resolve owner path) g fun _ k => Built C g k := by
  induction path generalizing owner g with
  | nil => exact ensures_pure.2 (.refl hg)
  | cons p path ih =>
    refine (h owner p g hg).bind fun x k hk => ?_
    cases x with
    | row a => exact (ih a k hk.opened).mono fun _ l hl => hk.trans hl
    | value n => exact ensures_throw

theorem ensures_resolveWithin (hr : r ∈ C) (fuel : Nat) (owner : AliasId) (p : PropertyRef) (g : Graph)
    (hg : g.Open C) :
    Ensures (m.resolveWithin r widen fuel owner p) g fun x h =>
      Built C g h ∧ x.Fits C h (m.catalog.relates p) := by
  induction fuel generalizing owner p g with
  | zero =>
    rw [resolveWithin]
    cases m.equivalents.find? p with
    | none => exact ensures_locate hg hr
    | some f => exact ensures_throw
  | succ fuel ih =>
    rw [resolveWithin]
    cases m.equivalents.find? p with
    | none => exact ensures_locate hg hr
    | some f =>
      refine ensures_map.2 (f.ensures_place (fun path g hg => ?_) g hg)
      refine ensures_walk (fun a q k hk => ?_) path owner g hg
      exact (ih a q k hk).mono fun _ _ h => h.1

lemma ensures_resolve (hr : r ∈ C) (owner : AliasId) (p : PropertyRef) {g : Graph} (hg : g.Open C) :
    Ensures (m.resolve r owner p widen) g fun x h =>
      Built C g h ∧ x.Fits C h (m.catalog.relates p) :=
  ensures_resolveWithin hr _ owner p g hg

end Mapping

end EntityQuery
