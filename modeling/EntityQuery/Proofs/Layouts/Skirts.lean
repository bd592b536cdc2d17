import EntityQuery.Proofs.Compile.Ensures
import EntityQuery.Proofs.Fragments.Paths
import EntityQuery.Proofs.Projections.Anchor

/-!
Changes around an anchored request, and values that are no whole rows.

* `Skirts A g h`: from `g` to `h` the anchored request has at most got other joins. So everything does
  that extends a graph, changes another request or joins a source.
* `Plain`: a value that is no whole row. It stays one; its copies and the fragment that is registered
  for it are none either.
* A property stands for a plain value if it is no navigation and no whole row is registered for it.
-/

namespace EntityQuery.Sql

/-- Whether a node is a whole row. -/
def Node.isRow : Node → Bool
  | .row _ => true
  | _ => false

namespace Graph

variable {A : Anchor} {g h k : Graph} {r : RequestId} {n : NodeId}

/-! ### Plain values -/

/-- A value that is no whole row. -/
structure Plain (g : Graph) (n : NodeId) : Prop where
  inside : n.index < g.entries.size
  scalar : (g.node n).isRow = false

lemma plain_add (g : Graph) {x : Node} (hx : x.isRow = false) :
    (g.add x).2.Plain ⟨g.entries.size⟩ := ⟨by simp, by rw [node_add_self]; exact hx⟩

lemma Plain.pushItem (h : g.Plain n) (r : RequestId) (i : Item) : (g.pushItem r i).Plain n :=
  ⟨by simpa using h.inside, by simpa [Graph.pushItem] using h.scalar⟩

/-! ### Changes around a request -/

/-- Values stay, and the anchored request stays as it was but for its joins. -/
structure Skirts (A : Anchor) (g h : Graph) : Prop where
  anchored : h.Anchored A
  entries : g.entries.size ≤ h.entries.size
  node : ∀ n, n.index < g.entries.size → h.node n = g.node n
  request : ∃ joins, h.request A.request = { g.request A.request with joins }

namespace Skirts

lemma refl (hg : g.Anchored A) : Skirts A g g := ⟨hg, le_rfl, fun _ _ => rfl, _, rfl⟩

lemma trans (hgh : Skirts A g h) (hhk : Skirts A h k) : Skirts A g k where
  anchored := hhk.anchored
  entries := hgh.entries.trans hhk.entries
  node n hn := (hhk.node n (hn.trans_le hgh.entries)).trans (hgh.node n hn)
  request := by
    obtain ⟨joins, hh⟩ := hgh.request
    obtain ⟨joins', hk⟩ := hhk.request
    exact ⟨joins', by rw [hk, hh]⟩

lemma plain (hgh : Skirts A g h) (hn : g.Plain n) : h.Plain n :=
  ⟨hn.inside.trans_le hgh.entries, by rw [hgh.node n hn.inside]; exact hn.scalar⟩

/-- Where nothing else is changed, only other requests. -/
lemma of_kept {C : List RequestId} {B : List AliasId} (hg : g.Anchored A) (hkept : Kept C B g h)
    (hA : A.request ∉ C) (hh : h.Anchored A) : Skirts A g h :=
  ⟨hh, hkept.entries, hkept.node, _, hkept.request _ hg.inside hA⟩

end Skirts

namespace Anchored

variable (hg : g.Anchored A)
include hg

/-! ### Extensions -/

lemma skirts_add (x : Node) : Skirts A g (g.add x).2 :=
  .of_kept hg (.add [] [] g x) List.not_mem_nil (hg.add x)

lemma skirts_attach (r : RequestId) (n : NodeId) : Skirts A g (g.attach r n) :=
  .of_kept hg (.attach [] [] g r n) List.not_mem_nil (hg.attach r n)

lemma skirts_addAlias (d : Alias) : Skirts A g (g.addAlias d).2 :=
  .of_kept hg (.addAlias [] [] g d) List.not_mem_nil (hg.addAlias d)

lemma skirts_bind (a : AliasId) (p : ParamId) : Skirts A g (g.bind a p) :=
  .of_kept hg (.bind g (List.mem_singleton_self a) p) (C := []) List.not_mem_nil (hg.bind a p)

lemma skirts_addRequest (parent : Option RequestId) : Skirts A g (g.addRequest parent).2 :=
  .of_kept hg (.addRequest [] [] g parent) List.not_mem_nil (hg.addRequest parent)

/-! ### Changes of requests -/

/-- A change to another request that keeps its joins. -/
lemma skirts_other (hr : r ≠ A.request) {f : Request → Request} (hf : ∀ q, (f q).joins = q.joins) :
    Skirts A g (g.modifyRequest r f) :=
  .of_kept hg (.modifyRequest (A := []) g (List.mem_singleton_self r) f)
    (by simpa using hr.symm) (hg.other hr hf)

/-- A change to the joins of a request. -/
lemma skirts_joins (r : RequestId) {f : Request → Request}
    (hf : f (g.request r) = { g.request r with joins := (f (g.request r)).joins })
    (hh : (g.modifyRequest r f).Anchored A) : Skirts A g (g.modifyRequest r f) := by
  by_cases hr : r = A.request
  · refine ⟨hh, le_rfl, fun _ _ => rfl, (f (g.request r)).joins, ?_⟩
    subst hr
    rw [request_modifyRequest_self _ _ hg.inside]
    exact hf
  · exact .of_kept hg (.modifyRequest (A := []) g (List.mem_singleton_self r) f)
      (by simpa using Ne.symm hr) hh

section Other

variable (hr : r ≠ A.request)
include hr

lemma skirts_pushItem (i : Item) : Skirts A g (g.pushItem r i) :=
  (hg.skirts_attach r i.node).trans ((hg.attach r i.node).skirts_other hr fun _ => rfl)

lemma skirts_clearItems : Skirts A g (g.clearItems r) := hg.skirts_other hr fun _ => rfl

/-- One value takes the place of all that were selected. -/
lemma skirts_selectOnly (i : Item) : Skirts A g ((g.clearItems r).pushItem r i) :=
  (hg.skirts_clearItems hr).trans ((hg.skirts_clearItems hr).anchored.skirts_pushItem hr i)

lemma skirts_pushGroup (n : NodeId) (p : Option PropertyRef) : Skirts A g (g.pushGroup r n p) :=
  (hg.skirts_attach r n).trans ((hg.attach r n).skirts_other hr fun _ => rfl)

lemma skirts_pushOrder (n : NodeId) (ascending : Bool) : Skirts A g (g.pushOrder r n ascending) :=
  (hg.skirts_attach r n).trans ((hg.attach r n).skirts_other hr fun _ => rfl)

lemma skirts_pushAssignment (s : Assignment) : Skirts A g (g.pushAssignment r s) :=
  ((hg.skirts_attach r s.column).trans ((hg.attach r s.column).skirts_attach r s.value)).trans
    (((hg.attach r s.column).attach r s.value).skirts_other hr fun _ => rfl)

omit hr in
lemma skirts_conjoin (old : Option NodeId) (n : NodeId) : Skirts A g (g.conjoin old n).2 := by
  cases old with
  | none => exact .refl hg
  | some m => exact hg.skirts_add _

lemma skirts_andFilter (n : NodeId) : Skirts A g (g.andFilter r n) :=
  (hg.skirts_conjoin _ n).trans (((hg.conjoin _ n).skirts_attach r _).trans
    (((hg.conjoin _ n).attach r _).skirts_other hr fun _ => rfl))

lemma skirts_andHaving (n : NodeId) : Skirts A g (g.andHaving r n) :=
  (hg.skirts_conjoin _ n).trans (((hg.conjoin _ n).skirts_attach r _).trans
    (((hg.conjoin _ n).attach r _).skirts_other hr fun _ => rfl))

end Other

/-! ### Joins -/

lemma skirts_pushJoin (r : RequestId) {j : Join}
    (hj : A.base ≠ some j.source ∧ j.source.index < g.aliases.size) : Skirts A g (g.pushJoin r j) :=
  (hg.skirts_attach r j.condition).trans
    ((hg.attach r j.condition).skirts_joins r rfl (hg.pushJoin r hj))

lemma skirts_dropJoin (r : RequestId) (a : AliasId) : Skirts A g (g.dropJoin r a) :=
  hg.skirts_joins r rfl (hg.dropJoin r a)

lemma skirts_widenJoin (r : RequestId) (a : AliasId) : Skirts A g (g.widenJoin r a) :=
  hg.skirts_joins r rfl (hg.widenJoin r a)

lemma skirts_equate (a : AliasId) (c : String) (b : AliasId) (c' : String) :
    Skirts A g (g.equate a c b c').2 :=
  .of_kept hg (.equate (C := []) (A := []) g a c b c') List.not_mem_nil (hg.congr (by simp) (by simp))

/-- A new alias, joined on equal columns. -/
lemma skirts_joinNew (d : Alias) (r : RequestId) (widen : Bool) (a : AliasId) (c : String) (b : AliasId)
    (c' : String) :
    Skirts A g ((g.addAlias d).2.joinEqual r ⟨g.aliases.size⟩ widen a c b c') := by
  have hequate := (hg.addAlias d).skirts_equate a c b c'
  refine (hg.skirts_addAlias d).trans (hequate.trans (hequate.anchored.skirts_pushJoin r ?_))
  exact ⟨hg.base_ne_new le_rfl, by simp⟩

lemma skirts_openRequest (outer : RequestId) (a : AliasId) : Skirts A g (g.openRequest outer a) :=
  (hg.skirts_addRequest (some outer)).trans
    ((hg.addRequest (some outer)).skirts_other hg.ne_new fun _ => rfl)

end Anchored

/-! ### Copies -/

section Copies

open Copy

/-- Copies change nothing that was in a graph. -/
def Conserves (g : Graph) {ι κ : Type} (copy : ι → Renames → Copy κ) : Prop :=
  ∀ i ren h, Kept [] [] g h → After (copy i ren) h fun _ k => Kept [] [] g k

/-- A request that was not in a graph may change. -/
lemma Kept.change (hgh : Kept [] [] g h) {q : RequestId} (hq : g.requests.size ≤ q.index)
    (hhk : Kept [q] [] h k) : Kept [] [] g k := by
  have hboth : Kept [q] [] g k := (hgh.mono (D := [q]) (B := []) (by simp) (by simp)).trans hhk
  refine hboth.mono (fun p hp hlt => ?_) (by simp)
  rw [List.mem_singleton.1 hp] at hlt
  exact absurd hlt (Nat.not_lt.2 hq)

variable {part : NodeId → Renames → Copy NodeId} {query : RequestId → Renames → Copy RequestId}
  {ren : Renames}

lemma after_add_kept (hh : Kept [] [] g h) (x : Node) :
    After (liftM (Build.add x) : Copy NodeId) h fun _ k => Kept [] [] g k :=
  after_lift (hh.trans (.add [] [] h x))

lemma after_mapM_kept (hpart : Conserves g part) (vs : List NodeId) (hh : Kept [] [] g h) :
    After (vs.mapM (part · ren)) h fun _ k => Kept [] [] g k := by
  induction vs generalizing h with
  | nil => exact after_pure hh
  | cons v vs ih =>
    rw [List.mapM_cons]
    refine (hpart v ren h hh).bind fun m k hk => ?_
    exact (ih hk).bind fun ms l hl => after_pure hl

lemma conserves_copyNode (hpart : Conserves g part) (hquery : Conserves g query) (x : Node)
    (hh : Kept [] [] g h) : After (Swap.copyNode {} part query x ren) h fun _ k => Kept [] [] g k := by
  cases x with
  | column a c => exact after_add_kept hh _
  | row a => exact after_add_kept hh _
  | const v => exact after_add_kept hh _
  | unary op operand =>
    cases operand with
    | none => exact after_add_kept hh _
    | some e => exact (hpart e ren h hh).bind fun m k hk => after_add_kept hk _
  | binary op l r =>
    refine (hpart l ren h hh).bind fun m k hk => ?_
    exact (hpart r ren k hk).bind fun m' k' hk' => after_add_kept hk' _
  | isIn e vs =>
    refine (hpart e ren h hh).bind fun m k hk => ?_
    exact (after_mapM_kept hpart vs hk).bind fun ms k' hk' => after_add_kept hk' _
  | cond t y z =>
    refine (hpart t ren h hh).bind fun t' k hk => ?_
    refine (hpart y ren k hk).bind fun y' k' hk' => ?_
    exact (hpart z ren k' hk').bind fun z' l hl => after_add_kept hl _
  | sub r => exact (hquery r ren h hh).bind fun q k hk => after_add_kept hk _

lemma after_copySources_kept (hquery : Conserves g query) (as : List AliasId) (hh : Kept [] [] g h) :
    After (as.foldlM (Swap.copySource {} g query) ren) h fun _ k => Kept [] [] g k := by
  have hrename : ∀ (ren : Renames) a (d : Alias) k, Kept [] [] g k → After (do
      let fresh ← (liftM (Build.addAlias d) : Copy AliasId)
      return { ren with aliases := (a, fresh) :: ren.aliases }) k fun (_ : Renames) l =>
        Kept [] [] g l := fun ren a d k hk =>
    After.bind (R := fun _ l => Kept [] [] g l) (after_lift (hk.trans (.addAlias [] [] k d)))
      fun b l hl => after_pure hl
  induction as generalizing h ren with
  | nil => exact after_pure hh
  | cons a as ih =>
    rw [List.foldlM_cons]
    refine After.bind (R := fun _ k => Kept [] [] g k) ?_ fun ren' k hk => ih hk
    unfold Swap.copySource
    cases horigin : (g.aliasOf a).origin with
    | table name =>
      simp only [horigin, pure_bind]
      exact hrename ren a _ h hh
    | request r =>
      simp only [horigin, map_eq_pure_bind, bind_assoc, pure_bind]
      exact (hquery r ren h hh).bind fun q k hk => hrename ren a _ k hk

/-- A request is copied into a new one. -/
lemma conserves_copyRequest (hpart : Conserves g part) (hquery : Conserves g query) (r : RequestId)
    (hh : Kept [] [] g h) :
    After (Swap.copyRequest {} g part query r ren) h fun _ k => Kept [] [] g k := by
  unfold Swap.copyRequest
  refine (after_addRequest _).bind ?_
  rintro q k ⟨rfl, rfl⟩
  have hnew : g.requests.size ≤ (⟨h.requests.size⟩ : RequestId).index := hh.requests
  generalize (⟨h.requests.size⟩ : RequestId) = q at hnew
  refine (after_copySources_kept hquery (g.request r).sources
    (hh.trans (.addRequest [] [] h _))).bind fun ren' k hk => ?_
  have hput : ∀ i (put : NodeId → Graph → Graph), (∀ m l, Kept [q] [] l (put m l)) →
      ∀ l, Kept [] [] g l →
      After (do let m ← part i ren'; modify (put m)) l fun _ l => Kept [] [] g l :=
    fun i put hput l hl => (hpart i ren' l hl).bind fun m l' hl' =>
      after_modify (hl'.change hnew (hput m l'))
  have hq : q ∈ [q] := List.mem_singleton_self q
  have hconjoin : ∀ (l : Graph) (old : Option NodeId) n, Kept [q] [] l (l.conjoin old n).2 := by
    intro l old n
    cases old with
    | none => exact .refl _ _ l
    | some m => exact .add _ _ l _
  have hclause : ∀ (l : Graph) n (f : Request → Request),
      Kept [q] [] l ((l.attach q n).modifyRequest q f) := fun l n f =>
    (Kept.attach _ _ l q n).trans (.modifyRequest _ hq f)
  refine (after_modify (Q := fun _ l => Kept [] [] g l)
    (hk.change hnew (.modifyRequest k hq (Swap.frame {} ren' (g.request r))))).bind fun _ l₁ hl₁ => ?_
  refine (after_forM _ (fun j _ => hput j.condition _ fun m l => hclause l _ _) hl₁).bind
    fun _ l₂ hl₂ => ?_
  refine (after_forM _ (fun i _ => hput i.node _ fun m l => hclause l _ _) hl₂).bind
    fun _ l₃ hl₃ => ?_
  refine (after_forM_option _ (fun i _ => hput i _ fun m l =>
    (hconjoin l _ m).trans (hclause _ _ _)) hl₃).bind fun _ l₄ hl₄ => ?_
  refine (after_forM_option _ (fun i _ => hput i _ fun m l =>
    (hconjoin l _ m).trans (hclause _ _ _)) hl₄).bind fun _ l₅ hl₅ => ?_
  refine (after_forM _ (fun ⟨i, p⟩ _ => hput i _ fun m l => hclause l _ _) hl₅).bind
    fun _ l₆ hl₆ => ?_
  refine (after_forM _ (fun o _ => hput o.node _ fun m l => hclause l _ _) hl₆).bind
    fun _ l₇ hl₇ => ?_
  refine (after_forM _ (fun a _ l hl => ?_) hl₇).bind fun _ l₈ hl₈ => after_pure hl₈
  refine (hpart a.column ren' l hl).bind fun m l' hl' => ?_
  exact hput a.value _ (fun i l => (Kept.attach _ _ l q m).trans (hclause _ i _)) l' hl'

/-- Copies change nothing that was in a graph, by induction on the depth of the reading. -/
theorem conserves_read (g : Graph) (fuel : Nat) (above : List RequestId) :
    Conserves g (g.readNodeWithin (Swap.copying {} g) fuel above) ∧
      Conserves g (g.readRequestWithin (Swap.copying {} g) fuel above) := by
  induction fuel generalizing above with
  | zero => exact ⟨fun _ _ _ _ => after_failure, fun _ _ _ _ => after_failure⟩
  | succ fuel ih =>
    constructor
    · intro i ren h hh
      exact conserves_copyNode (ih above).1 (ih above).2 (g.node i) hh
    · intro r ren h hh
      rw [readRequestWithin]
      split
      · exact after_failure
      · exact conserves_copyRequest (ih (r :: above)).1 (ih (r :: above)).2 r hh

/-- A copy of a value that is no whole row is none. -/
lemma plain_copyNode (part : NodeId → Renames → Copy NodeId)
    (query : RequestId → Renames → Copy RequestId) {x : Node} (hx : x.isRow = false) :
    After (Swap.copyNode {} part query x ren) h fun m k => k.Plain m := by
  have hadd : ∀ (y : Node) k, y.isRow = false →
      After (liftM (Build.add y) : Copy NodeId) k fun m l => l.Plain m := fun y k hy =>
    after_lift (plain_add k hy)
  have hany : ∀ {α : Type} (x : Copy α) k, After x k fun _ _ => True := fun _ _ _ _ _ => trivial
  cases x with
  | column a c => exact hadd _ h rfl
  | row a => cases hx
  | const v => exact hadd _ h rfl
  | unary op operand =>
    cases operand with
    | none => exact hadd _ h rfl
    | some e => exact (hany _ _).bind fun m k _ => hadd _ k rfl
  | binary op l r => exact (hany _ _).bind fun m k _ => (hany _ _).bind fun m' k _ => hadd _ k rfl
  | isIn e vs => exact (hany _ _).bind fun m k _ => (hany _ _).bind fun m' k _ => hadd _ k rfl
  | cond t y z =>
    exact (hany _ _).bind fun t' k _ => (hany _ _).bind fun y' k _ => (hany _ _).bind fun z' k _ =>
      hadd _ k rfl
  | sub r => exact (hany _ _).bind fun q k _ => hadd _ k rfl

/-- **A copy changes nothing that was there**, and a copy of a plain value is plain. -/
theorem Anchored.skirts_duplicate (hg : g.Anchored A) {m : NodeId}
    (hrun : (Build.duplicate n).run g = (some m, h)) :
    Skirts A g h ∧ (g.Plain n → h.Plain m) := by
  have hread := Build.run_copy_eq_some.1 hrun
  refine ⟨.of_kept hg ((conserves_read g g.height []).1 n {} g (.refl _ _ g) _ _ hread) List.not_mem_nil
    (hg.duplicate hrun), fun hn => ?_⟩
  exact plain_copyNode _ _ hn.scalar m h hread

end Copies

end Graph

end EntityQuery.Sql

namespace EntityQuery

open Sql Graph

variable {A : Anchor} {g : Graph} {n : NodeId}

/-! ### Fragments -/

namespace Fragment

/-- Whether a fragment is a whole row. -/
def isRow : Fragment → Bool
  | .row _ => true
  | _ => false

/-- A plain value has no whole row as its fragment. -/
lemma isRow_ofNode? {anchor : AliasId} {f : Fragment} (hf : ofNode? g anchor n = some f)
    (hn : (g.node n).isRow = false) : f.isRow = false := by
  rw [ofNode?, readNode, height, readNodeWithin] at hf
  generalize g.readNodeWithin (capturing g anchor) _ [] = part at hf
  generalize g.readRequestWithin (capturing g anchor) _ [] = query at hf
  cases hnode : g.node n with
  | row a =>
    rw [hnode] at hn
    cases hn
  | sub r =>
    rw [hnode] at hf
    cases hf
  | const v =>
    rw [hnode] at hf
    cases hf
    rfl
  | unary op operand =>
    rw [hnode] at hf
    cases operand with
    | none =>
      cases hf
      rfl
    | some e =>
      obtain ⟨_, -, hf⟩ := Option.bind_eq_some_iff.1 hf
      cases hf
      rfl
  | column a c =>
    rw [hnode] at hf
    obtain ⟨_, -, hf⟩ := Option.bind_eq_some_iff.1 hf
    cases hf
    rfl
  | binary op l r =>
    rw [hnode] at hf
    obtain ⟨_, -, hf⟩ := Option.bind_eq_some_iff.1 hf
    obtain ⟨_, -, hf⟩ := Option.bind_eq_some_iff.1 hf
    cases hf
    rfl
  | isIn e vs =>
    rw [hnode] at hf
    obtain ⟨_, -, hf⟩ := Option.bind_eq_some_iff.1 hf
    obtain ⟨_, -, hf⟩ := Option.bind_eq_some_iff.1 hf
    cases hf
    rfl
  | cond t y z =>
    rw [hnode] at hf
    obtain ⟨_, -, hf⟩ := Option.bind_eq_some_iff.1 hf
    obtain ⟨_, -, hf⟩ := Option.bind_eq_some_iff.1 hf
    obtain ⟨_, -, hf⟩ := Option.bind_eq_some_iff.1 hf
    cases hf
    rfl

/-- A fragment that is no whole row is placed as a plain value. -/
lemma plain_place {walk : List PropertyRef → Resolve AliasId} {f : Fragment} (hf : f.isRow = false) :
    Ensures (f.place walk) g fun n h => h.Plain n := by
  have hadd : ∀ (x : Node) k, x.isRow = false →
      Ensures (liftM (Build.add x) : Resolve NodeId) k fun m l => l.Plain m := fun x k hx =>
    ensures_lift.2 (k.plain_add hx)
  cases f with
  | row path => cases hf
  | column path name =>
    rw [place]
    exact ensures_after fun a k => hadd _ k rfl
  | const v =>
    rw [place]
    exact hadd _ g rfl
  | unary op operand =>
    cases operand with
    | none =>
      rw [place]
      exact hadd _ g rfl
    | some e =>
      rw [place]
      exact ensures_after fun m k => hadd _ k rfl
  | binary op l r =>
    rw [place]
    exact ensures_after fun m k => ensures_after fun m' k => hadd _ k rfl
  | isIn e vs =>
    rw [place]
    exact ensures_after fun m k => ensures_after fun ms k => hadd _ k rfl
  | cond t y z =>
    rw [place]
    exact ensures_after fun t' k => ensures_after fun y' k => ensures_after fun z' k => hadd _ k rfl

end Fragment

/-! ### Properties -/

namespace Mapping

variable {m : Mapping} {r : RequestId} {widen : Bool}

/-- What is registered for a property is the fragment of its value. -/
lemma mem_register {p : PropertyRef} {x : PropertyRef × Fragment}
    (hx : x ∈ (m.register g p n).equivalents) :
    x ∈ m.equivalents ∨ x.1 = p ∧ ((g.node n).isRow = false → x.2.isRow = false) := by
  unfold register at hx
  dsimp only at hx
  split at hx
  · next f hf =>
    rcases List.mem_cons.1 hx with rfl | hx
    · obtain ⟨q, -, hf⟩ := Option.bind_eq_some_iff.1 hf
      obtain ⟨a, -, hf⟩ := Option.bind_eq_some_iff.1 hf
      exact .inr ⟨rfl, Fragment.isRow_ofNode? hf⟩
    · exact .inl (List.mem_of_mem_filter hx)
  · exact .inl hx

lemma skirts_locate (hg : g.Anchored A) (owner : AliasId) (p : PropertyRef) :
    Ensures (m.locate r owner p widen) g fun _ h => g.Skirts A h := by
  intro x h hrun
  obtain ⟨stored, -, hkind⟩ := runs_locate.1 hrun
  rcases stored with ⟨name, column, kind⟩
  cases kind with
  | scalar t nullable length =>
    obtain ⟨rfl, rfl⟩ := hkind
    exact hg.skirts_add _
  | reference target =>
    obtain ⟨a, rfl, hjoin⟩ := hkind
    rcases runs_joinReference.1 hjoin with ⟨-, rfl⟩ | ⟨-, table, key, -, -, rfl, rfl⟩
    · split
      · exact hg.skirts_widenJoin r _
      · exact .refl hg
    · exact hg.skirts_joinNew _ r _ _ _ _ _
  | collection target =>
    obtain ⟨a, rfl, hjoin⟩ := hkind
    obtain ⟨table, targetKey, key, -, -, -, rfl, rfl⟩ := runs_joinCollection.1 hjoin
    exact hg.skirts_joinNew _ r _ _ _ _ _
  | manyToMany target link oc tc =>
    obtain ⟨a, rfl, hjoin⟩ := hkind
    obtain ⟨table, targetKey, ownerKey, -, -, -, rfl, rfl⟩ := runs_joinLinked.1 hjoin
    have hlink : g.Skirts A (joinLink g r owner p link oc ownerKey widen) :=
      hg.skirts_joinNew _ r _ _ _ _ _
    have hsize : (joinLink g r owner p link oc ownerKey widen).aliases.size = g.aliases.size + 1 := by
      simp [joinLink, Graph.joinEqual, Graph.pushJoin]
    refine hlink.trans ?_
    have hanchored := hlink.anchored
    generalize joinLink g r owner p link oc ownerKey widen = k at hanchored hsize ⊢
    rw [← hsize]
    exact hanchored.skirts_joinNew _ r _ _ _ _ _

lemma skirts_walk {resolve : AliasId → PropertyRef → Resolve Resolved}
    (hresolve : ∀ a p k, g.Skirts A k → Ensures (resolve a p) k fun _ l => g.Skirts A l)
    (path : List PropertyRef) (owner : AliasId) (k : Graph) (hk : g.Skirts A k) :
    Ensures (walk resolve owner path) k fun _ l => g.Skirts A l := by
  induction path generalizing owner k with
  | nil => exact ensures_pure.2 hk
  | cons p path ih =>
    refine (hresolve owner p k hk).bind fun x l hl => ?_
    cases x with
    | row a => exact ih a l hl
    | value n => exact ensures_throw

theorem skirts_resolveWithin (fuel : Nat) (owner : AliasId) (p : PropertyRef) (k : Graph)
    (hk : g.Skirts A k) :
    Ensures (m.resolveWithin r widen fuel owner p) k fun _ l => g.Skirts A l := by
  have hlocate : ∀ k, g.Skirts A k → Ensures (m.locate r owner p widen) k fun _ l => g.Skirts A l :=
    fun k hk => (skirts_locate hk.anchored owner p).mono fun _ _ hl => hk.trans hl
  induction fuel generalizing owner p k with
  | zero =>
    rw [resolveWithin]
    cases m.equivalents.find? p with
    | none => exact hlocate k hk
    | some f => exact ensures_throw
  | succ fuel ih =>
    rw [resolveWithin]
    cases m.equivalents.find? p with
    | none => exact hlocate k hk
    | some f =>
      refine ensures_map.2 (f.keeps_place (I := g.Skirts A)
        (fun k x hk => hk.trans (hk.anchored.skirts_add x)) (fun path k hk => ?_) k hk)
      refine skirts_walk (fun a q k hk => ih a q k hk fun k hk => ?_) path owner k hk
      exact (skirts_locate hk.anchored a q).mono fun _ _ hl => hk.trans hl

/-- A property changes no more of the anchored request than its joins, and a row that it stands for is
brought in by a join. -/
theorem skirts_resolve (hg : g.Anchored A) (owner : AliasId) (p : PropertyRef) :
    Ensures (m.resolve r owner p widen) g fun x h =>
      g.Skirts A h ∧ ∀ a, x = .row a → A.base ≠ some a := fun x h hrun =>
  ⟨skirts_resolveWithin _ owner p g (.refl hg) x h hrun, (brings_resolve owner p hg x h hrun).2⟩

/-- A property that is no navigation stands for a plain value if no whole row is registered for it. -/
theorem plain_resolve {p : PropertyRef} (hp : m.catalog.isNavigation p = false)
    (hf : ∀ f, m.equivalents.find? p = some f → f.isRow = false) (owner : AliasId) :
    Ensures (m.resolve r owner p widen) g fun x h => ∃ n, x = .value n ∧ h.Plain n := by
  have hlocate : Ensures (m.locate r owner p widen) g fun x h => ∃ n, x = .value n ∧ h.Plain n := by
    intro x h hrun
    obtain ⟨stored, hstored, hkind⟩ := runs_locate.1 hrun
    have htarget : stored.target? = none := by simpa [Catalog.isNavigation, hstored] using hp
    rcases stored with ⟨name, column, kind⟩
    cases kind with
    | scalar t nullable length =>
      obtain ⟨rfl, rfl⟩ := hkind
      exact ⟨_, rfl, g.plain_add rfl⟩
    | _ => cases htarget
  rw [resolve]
  cases m.nesting with
  | zero =>
    rw [resolveWithin]
    cases m.equivalents.find? p with
    | none => exact hlocate
    | some f => exact ensures_throw
  | succ fuel =>
    rw [resolveWithin]
    cases hfind : m.equivalents.find? p with
    | none => exact hlocate
    | some f => exact ensures_map.2 ((Fragment.plain_place (hf f hfind)).mono fun n h hn => ⟨n, rfl, hn⟩)

end Mapping

end EntityQuery
