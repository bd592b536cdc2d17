import EntityQuery.Mapping.Resolve
import EntityQuery.Proofs.Masking.Graph
import EntityQuery.Proofs.Sql.Lookup
import EntityQuery.Proofs.Sql.Nesting
import Mathlib.Data.List.Forall2
import Mathlib.Order.Defs.Unbundled

/-!
Graphs that differ in the kinds of their joins at most.

* `g.Rejoined K h`: the graph `h` has the nodes, the aliases and the requests of `g`, but a join of a
  kind `k` may be of another kind `k'` there if `K k k'`.
* Whatever looks up from a node, a request or a parameter finds the same in both graphs, and every
  operation on both keeps them so.
* `Tracks K x y`: from such graphs the steps `x` and `y` have the same outcomes, again with such
  graphs. A copy of a value does so, whatever requests are copied along.
-/

namespace EntityQuery.Sql

/-! ### Joins and requests -/

/-- Joins that differ in their kinds at most, as `K` allows. -/
structure Join.Rejoined (K : JoinKind → JoinKind → Prop) (j j' : Join) : Prop where
  source : j'.source = j.source
  condition : j'.condition = j.condition
  kind : K j.kind j'.kind

/-- Requests that differ in the kinds of their joins at most. -/
def Request.Rejoined (K : JoinKind → JoinKind → Prop) (q q' : Request) : Prop :=
  ∃ joins, List.Forall₂ (Join.Rejoined K) q.joins joins ∧ q' = { q with joins }

/-- Graphs that differ in the kinds of their joins at most. -/
structure Graph.Rejoined (K : JoinKind → JoinKind → Prop) (g h : Graph) : Prop where
  entries : h.entries = g.entries
  aliases : h.aliases = g.aliases
  size : h.requests.size = g.requests.size
  request (r : RequestId) : (g.request r).Rejoined K (h.request r)

variable {K : JoinKind → JoinKind → Prop}

lemma Join.Rejoined.eq {j j' : Join} (h : j.Rejoined Eq j') : j' = j := by
  obtain ⟨hsource, hcondition, hkind⟩ := h
  cases j
  cases j'
  simp_all

instance [Std.Refl K] : Std.Refl (Join.Rejoined K) := ⟨fun _ => ⟨rfl, rfl, Std.Refl.refl _⟩⟩

namespace Request.Rejoined

variable {q q' : Request}

lemma refl [Std.Refl K] (q : Request) : q.Rejoined K q := ⟨q.joins, List.forall₂_refl _, rfl⟩

/-- Requests with joins of the same kinds are the same. -/
lemma eq (h : q.Rejoined Eq q') : q' = q := by
  obtain ⟨joins, hjoins, rfl⟩ := h
  have hsame : joins = q.joins := by
    generalize q.joins = old at hjoins
    induction hjoins with
    | nil => rfl
    | cons hj _ ih => rw [hj.eq, ih]
  rw [hsame]

lemma joins (h : q.Rejoined K q') : List.Forall₂ (Join.Rejoined K) q.joins q'.joins := by
  obtain ⟨joins, hjoins, rfl⟩ := h
  exact hjoins

lemma map_source {joins joins' : List Join} (h : List.Forall₂ (Join.Rejoined K) joins joins') :
    joins'.map Join.source = joins.map Join.source := by
  induction h with
  | nil => rfl
  | cons hj _ ih => rw [List.map_cons, List.map_cons, hj.source, ih]

lemma sources (h : q.Rejoined K q') : q'.sources = q.sources := by
  obtain ⟨joins, hjoins, rfl⟩ := h
  rw [Request.sources, Request.sources, map_source hjoins]

lemma parent (h : q.Rejoined K q') : q'.parent = q.parent := by
  obtain ⟨joins, -, rfl⟩ := h
  rfl

lemma base (h : q.Rejoined K q') : q'.base = q.base := by
  obtain ⟨joins, -, rfl⟩ := h
  rfl

/-- A change of a request that does not look at its joins. -/
lemma edit (h : q.Rejoined K q') {f : Request → Request}
    (hf : ∀ (q : Request) joins, f { q with joins } = { f q with joins }) :
    (f q).Rejoined K (f q') := by
  obtain ⟨joins, hjoins, rfl⟩ := h
  have hkept : (f q).joins = q.joins := (congrArg Request.joins (hf q q.joins) :)
  exact ⟨joins, hkept ▸ hjoins, hf q joins⟩

/-- The joins of a source: the same in both requests, but for their kinds. -/
lemma joinFor? (h : q.Rejoined K q') (a : AliasId) :
    Option.Rel (Join.Rejoined K) (q.joinFor? a) (q'.joinFor? a) := by
  obtain ⟨joins, hjoins, rfl⟩ := h
  rw [Request.joinFor?, Request.joinFor?]
  dsimp only
  generalize q.joins = old at hjoins
  induction hjoins with
  | nil => exact .none
  | cons hj _ ih =>
    rw [List.find?_cons, List.find?_cons, hj.source]
    split
    · exact .some hj
    · exact ih

lemma eraseJoin (h : q.Rejoined K q') (a : AliasId) :
    Request.Rejoined K { q with joins := q.joins.eraseP fun k => k.source = a }
      { q' with joins := q'.joins.eraseP fun k => k.source = a } := by
  obtain ⟨joins, hjoins, rfl⟩ := h
  refine ⟨_, ?_, rfl⟩
  dsimp only
  generalize q.joins = old at hjoins
  induction hjoins with
  | nil => exact .nil
  | cons hj hrest ih =>
    rw [List.eraseP_cons, List.eraseP_cons, hj.source]
    cases decide (_ = a) with
    | true => exact hrest
    | false => exact .cons hj ih

lemma mapJoins (h : q.Rejoined K q') {f f' : Join → Join}
    (hf : ∀ j j', j.Rejoined K j' → (f j).Rejoined K (f' j')) :
    Request.Rejoined K { q with joins := q.joins.map f } { q' with joins := q'.joins.map f' } := by
  obtain ⟨joins, hjoins, rfl⟩ := h
  refine ⟨_, ?_, rfl⟩
  dsimp only
  rw [List.forall₂_map_left_iff, List.forall₂_map_right_iff]
  exact hjoins.imp hf

end Request.Rejoined

namespace Graph

variable {g h : Graph}

namespace Rejoined

lemma refl [Std.Refl K] (g : Graph) : g.Rejoined K g := ⟨rfl, rfl, rfl, fun _ => .refl _⟩

/-- Graphs with joins of the same kinds are the same. -/
lemma eq (hg : g.Rejoined Eq h) : h = g := by
  have hrequests : h.requests = g.requests := by
    refine Array.ext hg.size fun i hi hi' => ?_
    have hrequest := (hg.request ⟨i⟩).eq
    simpa [Graph.request, Array.getD, hi, hi'] using hrequest
  obtain ⟨entries, aliases, requests⟩ := h
  obtain rfl : entries = g.entries := hg.entries
  obtain rfl : aliases = g.aliases := hg.aliases
  obtain rfl : requests = g.requests := hrequests
  rfl

/-! ### Lookups -/

lemma node (hg : g.Rejoined K h) (n : NodeId) : h.node n = g.node n := by
  rw [Graph.node, Graph.node, Graph.entry, Graph.entry, hg.entries]

lemma aliasOf (hg : g.Rejoined K h) (a : AliasId) : h.aliasOf a = g.aliasOf a := by
  rw [Graph.aliasOf, Graph.aliasOf, hg.aliases]

lemma height (hg : g.Rejoined K h) : h.height = g.height := by
  rw [Graph.height, Graph.height, hg.entries, hg.size]

lemma owner? (hg : g.Rejoined K h) (n : NodeId) : h.owner? n = g.owner? n := by
  rw [Graph.owner?, Graph.owner?, hg.entries]
  generalize g.entries.size = fuel
  induction fuel generalizing n with
  | zero => rfl
  | succ fuel ih =>
    rw [ownerWithin, ownerWithin, parent?, parent?, entry, entry, hg.entries]
    split
    · rfl
    · exact ih _
    · rfl

lemma enclosing? (hg : g.Rejoined K h) {p p' : RequestId → Bool} (hp : ∀ r, p' r = p r)
    (r : RequestId) : h.enclosing? p' r = g.enclosing? p r := by
  obtain rfl : p' = p := funext hp
  rw [Graph.enclosing?, Graph.enclosing?, hg.size]
  generalize g.requests.size + 1 = fuel
  induction fuel generalizing r with
  | zero => rfl
  | succ fuel ih =>
    rw [enclosingWithin, enclosingWithin, (hg.request r).parent]
    split
    · rfl
    · cases (g.request r).parent with
      | none => rfl
      | some outer => exact ih outer

lemma outermost (hg : g.Rejoined K h) (r : RequestId) : h.outermost r = g.outermost r := by
  rw [Graph.outermost, Graph.outermost, hg.enclosing? fun q => by rw [(hg.request q).parent]]

lemma requestOver? (hg : g.Rejoined K h) (r : RequestId) (a : AliasId) :
    h.requestOver? r a = g.requestOver? r a :=
  hg.enclosing? (fun q => by rw [(hg.request q).base]) r

lemma boundSource? (hg : g.Rejoined K h) (p : ParamId) (r : RequestId) :
    h.boundSource? p r = g.boundSource? p r := by
  simp only [Graph.boundSource?, (hg.request r).sources, hg.aliasOf]

lemma aliasFor? (hg : g.Rejoined K h) (r : RequestId) (p : ParamId) :
    h.aliasFor? r p = g.aliasFor? r p := by
  rw [Graph.aliasFor?, Graph.aliasFor?, hg.enclosing? fun q => by rw [hg.boundSource?],
    funext (hg.boundSource? p)]

lemma navigated? (hg : g.Rejoined K h) (r : RequestId) (owner : AliasId) (p : PropertyRef) :
    h.navigated? r owner p = g.navigated? r owner p := by
  simp only [Graph.navigated?, Request.Rejoined.map_source (hg.request r).joins, hg.aliasOf]

lemma pathFrom? (hg : g.Rejoined K h) (anchor a : AliasId) :
    h.pathFrom? anchor a = g.pathFrom? anchor a := by
  rw [Graph.pathFrom?, Graph.pathFrom?, hg.aliases]
  generalize g.aliases.size + 1 = fuel
  induction fuel generalizing a with
  | zero => rfl
  | succ fuel ih =>
    rw [pathWithin, pathWithin, hg.aliasOf]
    split
    · rfl
    · cases (g.aliasOf a).route with
      | navigation owner p via => exact congrArg (Option.map (· ++ [p])) (ih owner)
      | root => rfl
      | link owner p => rfl

/-! ### Operations -/

lemma setParent (hg : g.Rejoined K h) (owner : Owner) (n : NodeId) :
    (g.setParent owner n).Rejoined K (h.setParent owner n) :=
  { hg with entries := by rw [Graph.setParent, Graph.setParent, hg.entries] }

lemma attach (hg : g.Rejoined K h) (r : RequestId) (n : NodeId) :
    (g.attach r n).Rejoined K (h.attach r n) := hg.setParent _ n

lemma foldl_setParent (owner : Owner) (ns : List NodeId) (hg : g.Rejoined K h) :
    (ns.foldl (fun g c => g.setParent owner c) g).Rejoined K
      (ns.foldl (fun g c => g.setParent owner c) h) := by
  induction ns generalizing g h with
  | nil => exact hg
  | cons n ns ih => exact ih (hg.setParent owner n)

lemma add_fst (hg : g.Rejoined K h) (node : Node) : (h.add node).1 = (g.add node).1 := by
  rw [Graph.add, Graph.add, hg.entries]

lemma add (hg : g.Rejoined K h) (node : Node) : (g.add node).2.Rejoined K (h.add node).2 := by
  have hadopted := foldl_setParent (.node ⟨g.entries.size⟩) node.children hg
  rw [Graph.add, Graph.add, hg.entries]
  exact { hadopted with entries := by rw [hadopted.entries] }

lemma addAlias_fst (hg : g.Rejoined K h) (a : Alias) : (h.addAlias a).1 = (g.addAlias a).1 := by
  rw [Graph.addAlias, Graph.addAlias, hg.aliases]

lemma addAlias (hg : g.Rejoined K h) (a : Alias) :
    (g.addAlias a).2.Rejoined K (h.addAlias a).2 :=
  { hg with aliases := by rw [Graph.addAlias, Graph.addAlias, hg.aliases] }

lemma bind (hg : g.Rejoined K h) (a : AliasId) (p : ParamId) :
    (g.bind a p).Rejoined K (h.bind a p) :=
  { hg with aliases := by simp only [Graph.bind, modifyAlias, hg.aliases] }

lemma addRequest_fst (hg : g.Rejoined K h) (parent : Option RequestId) :
    (h.addRequest parent).1 = (g.addRequest parent).1 := by
  rw [Graph.addRequest, Graph.addRequest, hg.size]

lemma addRequest [Std.Refl K] (hg : g.Rejoined K h) (parent : Option RequestId) :
    (g.addRequest parent).2.Rejoined K (h.addRequest parent).2 := by
  refine { hg with size := ?_, request := fun r => ?_ }
  · rw [size_requests_addRequest, size_requests_addRequest, hg.size]
  · rw [request_addRequest, request_addRequest, hg.size]
    split
    · exact .refl _
    · exact hg.request r

lemma modifyRequest (hg : g.Rejoined K h) (r : RequestId) {f f' : Request → Request}
    (hf : ∀ q q', q.Rejoined K q' → (f q).Rejoined K (f' q')) :
    (g.modifyRequest r f).Rejoined K (h.modifyRequest r f') := by
  refine { hg with size := ?_, request := fun s => ?_ }
  · rw [size_requests_modifyRequest, size_requests_modifyRequest, hg.size]
  · rcases eq_or_ne s r with rfl | hne
    · rcases Nat.lt_or_ge s.index g.requests.size with hlt | hge
      · rw [request_modifyRequest_self _ _ hlt, request_modifyRequest_self _ _ (hg.size ▸ hlt)]
        exact hf _ _ (hg.request s)
      · rw [request_of_size_le (by rwa [size_requests_modifyRequest]),
          request_of_size_le (by rwa [size_requests_modifyRequest, hg.size])]
        exact ⟨[], .nil, rfl⟩
    · rw [request_modifyRequest_of_ne _ _ hne, request_modifyRequest_of_ne _ _ hne]
      exact hg.request s

lemma editRequest (hg : g.Rejoined K h) (r : RequestId) {f : Request → Request}
    (hf : ∀ (q : Request) joins, f { q with joins } = { f q with joins }) :
    (g.modifyRequest r f).Rejoined K (h.modifyRequest r f) :=
  hg.modifyRequest r fun _ _ hq => hq.edit hf

lemma pushItem (hg : g.Rejoined K h) (r : RequestId) (i : Item) :
    (g.pushItem r i).Rejoined K (h.pushItem r i) :=
  (hg.attach r i.node).editRequest r fun _ _ => rfl

lemma clearItems (hg : g.Rejoined K h) (r : RequestId) :
    (g.clearItems r).Rejoined K (h.clearItems r) := hg.editRequest r fun _ _ => rfl

lemma conjoin_fst (hg : g.Rejoined K h) (old : Option NodeId) (n : NodeId) :
    (h.conjoin old n).1 = (g.conjoin old n).1 := by
  cases old with
  | none => rfl
  | some m => exact hg.add_fst _

lemma conjoin (hg : g.Rejoined K h) (old : Option NodeId) (n : NodeId) :
    (g.conjoin old n).2.Rejoined K (h.conjoin old n).2 := by
  cases old with
  | none => exact hg
  | some m => exact hg.add _

lemma andFilter (hg : g.Rejoined K h) (r : RequestId) (n : NodeId) :
    (g.andFilter r n).Rejoined K (h.andFilter r n) := by
  have hfilter : (h.request r).filter = (g.request r).filter := by
    obtain ⟨joins, -, hq⟩ := hg.request r
    rw [hq]
  rw [Graph.andFilter, Graph.andFilter, hfilter]
  dsimp only
  rw [hg.conjoin_fst]
  exact ((hg.conjoin _ n).attach r _).editRequest r fun _ _ => rfl

lemma andHaving (hg : g.Rejoined K h) (r : RequestId) (n : NodeId) :
    (g.andHaving r n).Rejoined K (h.andHaving r n) := by
  have hhaving : (h.request r).having = (g.request r).having := by
    obtain ⟨joins, -, hq⟩ := hg.request r
    rw [hq]
  rw [Graph.andHaving, Graph.andHaving, hhaving]
  dsimp only
  rw [hg.conjoin_fst]
  exact ((hg.conjoin _ n).attach r _).editRequest r fun _ _ => rfl

lemma pushGroup (hg : g.Rejoined K h) (r : RequestId) (n : NodeId) (p : Option PropertyRef) :
    (g.pushGroup r n p).Rejoined K (h.pushGroup r n p) :=
  (hg.attach r n).editRequest r fun _ _ => rfl

lemma pushOrder (hg : g.Rejoined K h) (r : RequestId) (n : NodeId) (ascending : Bool) :
    (g.pushOrder r n ascending).Rejoined K (h.pushOrder r n ascending) :=
  (hg.attach r n).editRequest r fun _ _ => rfl

lemma pushAssignment (hg : g.Rejoined K h) (r : RequestId) (s : Assignment) :
    (g.pushAssignment r s).Rejoined K (h.pushAssignment r s) :=
  ((hg.attach r s.column).attach r s.value).editRequest r fun _ _ => rfl

lemma pushJoin (hg : g.Rejoined K h) (r : RequestId) {j j' : Join} (hj : j.Rejoined K j') :
    (g.pushJoin r j).Rejoined K (h.pushJoin r j') := by
  rw [Graph.pushJoin, Graph.pushJoin, hj.condition]
  refine (hg.attach r j.condition).modifyRequest r ?_
  rintro q _ ⟨joins, hjoins, rfl⟩
  exact ⟨_, List.rel_append hjoins (.cons hj .nil), rfl⟩

/-- The join of a source, taken out of both requests. -/
lemma takeJoin (hg : g.Rejoined K h) (r : RequestId) (a : AliasId) :
    Option.Rel (Join.Rejoined K) (g.takeJoin r a).1 (h.takeJoin r a).1 ∧
      (g.takeJoin r a).2.Rejoined K (h.takeJoin r a).2 := by
  have hfound := (hg.request r).joinFor? a
  rw [Graph.takeJoin, Graph.takeJoin]
  generalize (g.request r).joinFor? a = o, (h.request r).joinFor? a = o' at hfound
  cases hfound with
  | none => exact ⟨.none, hg⟩
  | some hj => exact ⟨.some hj, hg.modifyRequest r fun _ _ hq => hq.eraseJoin a⟩

/-- The join of a source or of its link table, with rows that may have no partner if `widen`. -/
def eased (widen : Bool) (a : AliasId) (via : Option AliasId) (j : Join) : Join :=
  if j.source = a ∨ some j.source = via then { j with kind := if widen then .left else j.kind } else j

omit K in
lemma widenJoin_eq_modify (g : Graph) (r : RequestId) (a : AliasId) (widen : Bool) :
    (if widen then g.widenJoin r a else g) = g.modifyRequest r fun q =>
      { q with joins := q.joins.map (eased widen a (g.aliasOf a).via?) } := by
  cases widen with
  | true => rfl
  | false =>
    have hid : (fun q : Request => { q with joins := q.joins.map (eased false a (g.aliasOf a).via?) })
        = id := by
      funext q
      have heased : eased false a (g.aliasOf a).via? = id := funext fun j => ite_self j
      rw [heased, List.map_id, id]
    have hmodify : g.requests.modify r.index id = g.requests :=
      Array.ext (Array.size_modify ..) fun i _ _ => by simp [Array.getElem_modify]
    rw [hid, Graph.modifyRequest, hmodify]
    rfl

lemma ease_rejoined [Std.Refl K] {w w' : Bool} (hw : K (.ofWiden w) (.ofWiden w')) (a : AliasId)
    (via : Option AliasId) {j j' : Join} (hj : j.Rejoined K j') :
    (eased w a via j).Rejoined K (eased w' a via j') := by
  have hkind : ∀ {k k' : JoinKind}, K k k' →
      K (if w then .left else k) (if w' then .left else k') := by
    intro k k' hk
    have hrefl : ∀ k, K k k := Std.Refl.refl
    cases w <;> cases w' <;> cases k <;> cases k' <;> first | exact hk | exact hw | exact hrefl _
  unfold eased
  rw [hj.source]
  split
  · exact ⟨rfl, hj.condition, hkind hj.kind⟩
  · exact hj

lemma widenJoin [Std.Refl K] (hg : g.Rejoined K h) {w w' : Bool}
    (hw : K (.ofWiden w) (.ofWiden w')) (r : RequestId) (a : AliasId) :
    (if w then g.widenJoin r a else g).Rejoined K (if w' then h.widenJoin r a else h) := by
  rw [widenJoin_eq_modify, widenJoin_eq_modify, hg.aliasOf]
  exact hg.modifyRequest r fun _ _ hq => hq.mapJoins fun _ _ hj => ease_rejoined hw a _ hj

end Rejoined

end Graph

/-! ### Steps -/

/-- One outcome of steps on two graphs. -/
structure Outcome (K : JoinKind → JoinKind → Prop) (α : Type) where
  result : α
  first : Graph
  second : Graph
  rejoined : first.Rejoined K second

namespace Outcome

variable {α : Type}

def left (o : Outcome K α) : α × Graph := (o.result, o.first)

def right (o : Outcome K α) : α × Graph := (o.result, o.second)

end Outcome

/-- From graphs that differ in the kinds of joins, two steps have the same outcomes. -/
def Tracks (K : JoinKind → JoinKind → Prop) {m : Type → Type} [Monad m] {α : Type}
    (x y : StateT Graph m α) : Prop :=
  ∀ g h : Graph, g.Rejoined K h →
    ∃ o : m (Outcome K α), x.run g = Outcome.left <$> o ∧ y.run h = Outcome.right <$> o

namespace Tracks

variable {m : Type → Type} [Monad m] [LawfulMonad m] {α β : Type}

lemma pure (a : α) : Tracks K (Pure.pure a : StateT Graph m α) (Pure.pure a) := by
  intro g h hg
  refine ⟨Pure.pure ⟨a, g, h, hg⟩, ?_⟩
  simp [Outcome.left, Outcome.right]

lemma bind {x y : StateT Graph m α} {k k' : α → StateT Graph m β} (hx : Tracks K x y)
    (hk : ∀ a, Tracks K (k a) (k' a)) : Tracks K (x >>= k) (y >>= k') := by
  intro g h hg
  obtain ⟨o, ho, ho'⟩ := hx g h hg
  choose next hnext hnext' using fun p : Outcome K α => hk p.result _ _ p.rejoined
  refine ⟨o >>= next, ?_, ?_⟩
  · rw [StateT.run_bind, ho, bind_map_left, map_bind]
    exact bind_congr hnext
  · rw [StateT.run_bind, ho', bind_map_left, map_bind]
    exact bind_congr hnext'

lemma map {x y : StateT Graph m α} (f : α → β) (hx : Tracks K x y) :
    Tracks K (f <$> x) (f <$> y) := by
  rw [map_eq_pure_bind, map_eq_pure_bind]
  exact hx.bind fun a => pure (f a)

lemma modifyGet {f f' : Graph → α × Graph}
    (hf : ∀ g h : Graph, g.Rejoined K h → (f' h).1 = (f g).1 ∧ (f g).2.Rejoined K (f' h).2) :
    Tracks K (MonadStateOf.modifyGet f : StateT Graph m α) (MonadStateOf.modifyGet f') := by
  intro g h hg
  obtain ⟨hfst, hsnd⟩ := hf g h hg
  refine ⟨Pure.pure ⟨(f g).1, _, _, hsnd⟩, ?_, ?_⟩
  · rw [map_pure]
    rfl
  · rw [map_pure, Outcome.right, ← hfst]
    rfl

lemma modify {f f' : Graph → Graph} (hf : ∀ g h : Graph, g.Rejoined K h → (f g).Rejoined K (f' h)) :
    Tracks K (modify f : StateT Graph m PUnit) (modify f') :=
  modifyGet fun g h hg => ⟨rfl, hf g h hg⟩

lemma mapM {f f' : α → StateT Graph m β} (h : ∀ a, Tracks K (f a) (f' a)) (as : List α) :
    Tracks K (as.mapM f) (as.mapM f') := by
  induction as with
  | nil => exact pure []
  | cons a as ih =>
    rw [List.mapM_cons, List.mapM_cons]
    exact (h a).bind fun b => ih.bind fun bs => pure _

/-- A loop over two lists whose elements are related one by one. -/
lemma forM_forall₂ {R : α → α → Prop} {f f' : α → StateT Graph m PUnit} {as as' : List α}
    (has : List.Forall₂ R as as') (h : ∀ a a', R a a' → Tracks K (f a) (f' a')) :
    Tracks K (as.forM f) (as'.forM f') := by
  induction has with
  | nil => exact pure _
  | cons ha _ ih => exact (h _ _ ha).bind fun _ => ih

lemma forM {f f' : α → StateT Graph m PUnit} (h : ∀ a, Tracks K (f a) (f' a)) (as : List α) :
    Tracks K (as.forM f) (as.forM f') :=
  forM_forall₂ (List.forall₂_same.2 fun _ _ => rfl) fun a _ ha => ha ▸ h a

lemma foldlM {f f' : β → α → StateT Graph m β} (h : ∀ b a, Tracks K (f b a) (f' b a))
    (as : List α) (b : β) : Tracks K (as.foldlM f b) (as.foldlM f' b) := by
  induction as generalizing b with
  | nil => exact pure b
  | cons a as ih =>
    rw [List.foldlM_cons, List.foldlM_cons]
    exact (h b a).bind fun b => ih b

lemma forM_option {f f' : α → StateT Graph m PUnit} (h : ∀ a, Tracks K (f a) (f' a))
    (a : Option α) : Tracks K (a.forM f) (a.forM f') := by
  cases a with
  | none => exact pure _
  | some a => exact h a

/-- Steps that cannot fail have one outcome. -/
lemma run {x y : Build α} (hx : Tracks K x y) {g h : Graph} (hg : g.Rejoined K h) :
    (y.run h).1 = (x.run g).1 ∧ (x.run g).2.Rejoined K (y.run h).2 := by
  obtain ⟨o, ho, ho'⟩ := hx g h hg
  rw [ho, ho']
  exact ⟨rfl, Outcome.rejoined o⟩

lemma lift {x y : Build α} (hx : Tracks K x y) :
    Tracks K (liftM x : Copy α) (liftM y : Copy α) := by
  intro g h hg
  obtain ⟨o, ho, ho'⟩ := hx g h hg
  refine ⟨some o, ?_, ?_⟩
  · change some (x.run g) = _
    rw [ho]
    rfl
  · change some (y.run h) = _
    rw [ho']
    rfl

lemma failure : Tracks K (failure : Copy α) (failure : Copy α) := fun _ _ _ => ⟨none, rfl, rfl⟩

end Tracks

namespace Build

lemma tracks_add (node : Node) : Tracks K (add node) (add node) :=
  .modifyGet fun _ _ hg => ⟨hg.add_fst node, hg.add node⟩

lemma tracks_addAlias (a : Alias) : Tracks K (addAlias a) (addAlias a) :=
  .modifyGet fun _ _ hg => ⟨hg.addAlias_fst a, hg.addAlias a⟩

lemma tracks_addRequest [Std.Refl K] (parent : Option RequestId) :
    Tracks K (addRequest parent) (addRequest parent) :=
  .modifyGet fun _ _ hg => ⟨hg.addRequest_fst parent, hg.addRequest parent⟩

end Build

/-! ### Copies -/

namespace Swap

variable {s : Swap} {part part' : NodeId → Renames → Copy NodeId}
  {query query' : RequestId → Renames → Copy RequestId}

lemma tracks_copyNode (hpart : ∀ n ren, Tracks K (part n ren) (part' n ren))
    (hquery : ∀ r ren, Tracks K (query r ren) (query' r ren)) (n : Node) (ren : Renames) :
    Tracks K (s.copyNode part query n ren) (s.copyNode part' query' n ren) := by
  have hadd : ∀ node, Tracks K (liftM (Build.add node) : Copy NodeId) (liftM (Build.add node)) :=
    fun node => (Build.tracks_add node).lift
  match n with
  | .column a c => exact hadd _
  | .row a => exact hadd _
  | .const v => exact hadd _
  | .unary op none => exact hadd _
  | .unary op (some e) => exact (hpart e ren).bind fun e => hadd _
  | .binary op l r => exact (hpart l ren).bind fun l => (hpart r ren).bind fun r => hadd _
  | .isIn e vs =>
    exact (hpart e ren).bind fun e => (Tracks.mapM (fun n => hpart n ren) vs).bind fun vs => hadd _
  | .cond t y n =>
    exact (hpart t ren).bind fun t => (hpart y ren).bind fun y => (hpart n ren).bind fun n => hadd _
  | .sub r => exact (hquery r ren).bind fun r => hadd _

variable {g h : Graph}

lemma tracks_copySource (hg : g.Rejoined K h)
    (hquery : ∀ r ren, Tracks K (query r ren) (query' r ren)) (ren : Renames) (a : AliasId) :
    Tracks K (s.copySource g query ren a) (s.copySource h query' ren a) := by
  have hfresh : ∀ origin : Origin, Tracks K
      (do let fresh ← (liftM (Build.addAlias { g.aliasOf a with
            origin, route := s.route ren (g.aliasOf a).route }) : Copy AliasId)
          return { ren with aliases := (a, fresh) :: ren.aliases }) _ :=
    fun origin => (Build.tracks_addAlias _).lift.bind fun fresh => .pure _
  unfold copySource
  rw [hg.aliasOf]
  dsimp only
  split
  · exact (Tracks.pure _).bind hfresh
  · exact ((hquery _ ren).map _).bind hfresh

lemma tracks_copyRequest [Std.Refl K] (hg : g.Rejoined K h)
    (hpart : ∀ n ren, Tracks K (part n ren) (part' n ren))
    (hquery : ∀ r ren, Tracks K (query r ren) (query' r ren)) (r : RequestId) (ren : Renames) :
    Tracks K (s.copyRequest g part query r ren) (s.copyRequest h part' query' r ren) := by
  obtain ⟨joins, hjoins, hr⟩ := hg.request r
  have hsources := (hg.request r).sources
  unfold copyRequest
  dsimp only
  rw [hsources, hr]
  refine (Build.tracks_addRequest _).lift.bind fun new => ?_
  refine (Tracks.foldlM (fun ren a => tracks_copySource hg hquery ren a) _ _).bind fun ren => ?_
  refine Tracks.bind (.modify fun _ _ hg => hg.editRequest new fun _ _ => rfl) fun _ => ?_
  refine (Tracks.forM_forall₂ hjoins fun j j' hj => ?_).bind fun _ => ?_
  · rw [hj.condition, hj.source]
    exact (hpart _ ren).bind fun n => .modify fun _ _ hg => hg.pushJoin new ⟨rfl, rfl, hj.kind⟩
  refine (Tracks.forM (fun i => ?_) _).bind fun _ => ?_
  · exact (hpart _ ren).bind fun n => .modify fun _ _ hg => hg.pushItem new _
  refine (Tracks.forM_option (fun n => ?_) _).bind fun _ => ?_
  · exact (hpart _ ren).bind fun n => .modify fun _ _ hg => hg.andFilter new n
  refine (Tracks.forM_option (fun n => ?_) _).bind fun _ => ?_
  · exact (hpart _ ren).bind fun n => .modify fun _ _ hg => hg.andHaving new n
  refine (Tracks.forM (fun k => ?_) _).bind fun _ => ?_
  · exact (hpart _ ren).bind fun n => .modify fun _ _ hg => hg.pushGroup new n _
  refine (Tracks.forM (fun o => ?_) _).bind fun _ => ?_
  · exact (hpart _ ren).bind fun n => .modify fun _ _ hg => hg.pushOrder new n _
  refine (Tracks.forM (fun a => ?_) _).bind fun _ => .pure new
  exact (hpart _ ren).bind fun c => (hpart _ ren).bind fun v =>
    .modify fun _ _ hg => hg.pushAssignment new ⟨c, v⟩

lemma tracks_copying [Std.Refl K] (hg : g.Rejoined K h) (n : NodeId) (ren : Renames) :
    Tracks K (g.readNode (s.copying g) n ren) (h.readNode (s.copying h) n ren) := by
  rw [Graph.readNode, Graph.readNode, hg.height]
  refine (Graph.readWithin_related
    (P := fun (x y : Renames → Copy NodeId) => ∀ ren, Tracks K (x ren) (y ren))
    (Q := fun (x y : Renames → Copy RequestId) => ∀ ren, Tracks K (x ren) (y ren))
    ?_ ?_ (fun _ => .failure) (fun _ => .failure) g.height []).1 n ren
  · intro part part' query query' n hpart hquery ren
    rw [hg.node]
    exact tracks_copyNode hpart hquery _ ren
  · exact fun part part' query query' r hpart hquery => tracks_copyRequest hg hpart hquery r

end Swap

/-- A copy of a value copies the joins of its requests with their kinds. -/
lemma Build.tracks_duplicate [Std.Refl K] (n : NodeId) :
    Tracks K (duplicate n) (duplicate n) := by
  refine .modifyGet fun g h hg => ?_
  obtain ⟨o, ho, ho'⟩ := Swap.tracks_copying (s := {}) hg n {} g h hg
  rw [ho, ho']
  cases o with
  | none => exact ⟨rfl, hg⟩
  | some o => exact ⟨rfl, o.rejoined⟩

end EntityQuery.Sql
