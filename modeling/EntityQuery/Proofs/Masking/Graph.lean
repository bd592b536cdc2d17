import EntityQuery.Mapping.Resolve
import EntityQuery.Proofs.Masking.Expr
import EntityQuery.Sql.Copy

/-!
Graphs without the contents of their constants.

* Every operation on graphs commutes with `mask`: none looks at a constant beyond its variant.
* `Blind` says the same of steps that extend a graph. Copies, and the resolution of properties
  through fragments, are blind.
-/

namespace EntityQuery

namespace Sql

/-! ### Nodes -/

/-- A node without the contents of a constant. -/
def Node.mask : Node → Node
  | .const v => .const v.mask
  | n => n

namespace Node

@[simp] lemma children_mask (n : Node) : n.mask.children = n.children := by cases n <;> rfl

@[simp] lemma isNull_mask (n : Node) : n.mask.isNull = n.isNull := by
  cases n <;> simp [mask, isNull]

@[simp] lemma isColumn_mask (n : Node) : n.mask.isColumn = n.isColumn := by cases n <;> rfl

end Node

def Entry.mask (e : Entry) : Entry := { e with node := e.node.mask }

namespace Graph

/-- A graph without the contents of its constants. -/
def mask (g : Graph) : Graph := { g with entries := g.entries.map Entry.mask }

variable (g : Graph)

/-! ### Reading -/

@[simp] lemma size_entries_mask : g.mask.entries.size = g.entries.size := by simp [mask]

@[simp] lemma entry_mask (n : NodeId) : g.mask.entry n = (g.entry n).mask := by
  unfold entry mask
  simp only [Array.getD, Array.size_map]
  split
  · simp
  · rfl

@[simp] lemma node_mask (n : NodeId) : g.mask.node n = (g.node n).mask := by
  rw [node, entry_mask, node]; rfl

@[simp] lemma parent?_mask (n : NodeId) : g.mask.parent? n = g.parent? n := by
  rw [parent?, entry_mask, parent?]; rfl

@[simp] lemma aliasOf_mask (a : AliasId) : g.mask.aliasOf a = g.aliasOf a := rfl

@[simp] lemma request_mask (r : RequestId) : g.mask.request r = g.request r := rfl

@[simp] lemma height_mask : g.mask.height = g.height := by
  unfold height
  rw [size_entries_mask]
  rfl

lemma ownerWithin_mask (fuel : Nat) (n : NodeId) :
    g.mask.ownerWithin fuel n = g.ownerWithin fuel n := by
  induction fuel generalizing n with
  | zero => rfl
  | succ fuel ih =>
    rw [ownerWithin, ownerWithin, parent?_mask]
    split
    · rfl
    · exact ih _
    · rfl

@[simp] lemma owner?_mask (n : NodeId) : g.mask.owner? n = g.owner? n := by
  rw [owner?, ownerWithin_mask, size_entries_mask, owner?]

lemma enclosingWithin_mask (p : RequestId → Bool) (fuel : Nat) (r : RequestId) :
    g.mask.enclosingWithin p fuel r = g.enclosingWithin p fuel r := by
  induction fuel generalizing r with
  | zero => rfl
  | succ fuel ih =>
    rw [enclosingWithin, enclosingWithin, request_mask]
    split
    · rfl
    · split
      · exact ih _
      · rfl

@[simp] lemma enclosing?_mask (p : RequestId → Bool) (r : RequestId) :
    g.mask.enclosing? p r = g.enclosing? p r := g.enclosingWithin_mask p _ r

@[simp] lemma outermost_mask (r : RequestId) : g.mask.outermost r = g.outermost r := by
  rw [outermost, enclosing?_mask, outermost]; rfl

@[simp] lemma requestOver?_mask (r : RequestId) (a : AliasId) :
    g.mask.requestOver? r a = g.requestOver? r a := g.enclosing?_mask _ r

@[simp] lemma aliasFor?_mask (r : RequestId) (p : ParamId) :
    g.mask.aliasFor? r p = g.aliasFor? r p := by
  rw [aliasFor?, enclosing?_mask, aliasFor?]; rfl

lemma pathWithin_mask (anchor : AliasId) (fuel : Nat) (a : AliasId) :
    g.mask.pathWithin anchor fuel a = g.pathWithin anchor fuel a := by
  induction fuel generalizing a with
  | zero => rfl
  | succ fuel ih =>
    rw [pathWithin, pathWithin, aliasOf_mask]
    split
    · rfl
    · split
      · rw [ih]
      · rfl
      · rfl

@[simp] lemma pathFrom?_mask (anchor a : AliasId) :
    g.mask.pathFrom? anchor a = g.pathFrom? anchor a := g.pathWithin_mask anchor _ a

@[simp] lemma navigated?_mask (r : RequestId) (owner : AliasId) (p : PropertyRef) :
    g.mask.navigated? r owner p = g.navigated? r owner p := rfl

/-! ### Building -/

@[simp] lemma setParent_mask (owner : Owner) (n : NodeId) :
    g.mask.setParent owner n = (g.setParent owner n).mask := by
  unfold setParent mask
  congr 1
  ext i h h'
  · simp
  · simp only [Array.getElem_modify, Array.getElem_map]
    split <;> rfl

lemma foldl_setParent_mask (owner : Owner) (ns : List NodeId) :
    ns.foldl (fun g c => g.setParent owner c) g.mask =
      (ns.foldl (fun g c => g.setParent owner c) g).mask := by
  induction ns generalizing g with
  | nil => rfl
  | cons n ns ih => rw [List.foldl_cons, setParent_mask, ih, List.foldl_cons]

@[simp] lemma add_mask (node : Node) :
    g.mask.add node.mask = ((g.add node).1, (g.add node).2.mask) := by
  simp only [add, size_entries_mask, Node.children_mask, foldl_setParent_mask]
  simp [mask, Entry.mask]

@[simp] lemma attach_mask (r : RequestId) (n : NodeId) :
    g.mask.attach r n = (g.attach r n).mask := g.setParent_mask _ n

@[simp] lemma addAlias_mask (a : Alias) :
    g.mask.addAlias a = ((g.addAlias a).1, (g.addAlias a).2.mask) := rfl

@[simp] lemma bind_mask (a : AliasId) (p : ParamId) : g.mask.bind a p = (g.bind a p).mask := rfl

@[simp] lemma addRequest_mask (parent : Option RequestId) :
    g.mask.addRequest parent = ((g.addRequest parent).1, (g.addRequest parent).2.mask) := rfl

@[simp] lemma modifyRequest_mask (r : RequestId) (f : Request → Request) :
    g.mask.modifyRequest r f = (g.modifyRequest r f).mask := rfl

@[simp] lemma clearItems_mask (r : RequestId) : g.mask.clearItems r = (g.clearItems r).mask := rfl

@[simp] lemma widenJoin_mask (r : RequestId) (a : AliasId) :
    g.mask.widenJoin r a = (g.widenJoin r a).mask := rfl

@[simp] lemma pushItem_mask (r : RequestId) (i : Item) :
    g.mask.pushItem r i = (g.pushItem r i).mask := by simp [pushItem]

@[simp] lemma conjoin_mask (old : Option NodeId) (n : NodeId) :
    g.mask.conjoin old n = ((g.conjoin old n).1, (g.conjoin old n).2.mask) := by
  cases old with
  | none => rfl
  | some m => exact g.add_mask (.binary .and m n)

@[simp] lemma andFilter_mask (r : RequestId) (n : NodeId) :
    g.mask.andFilter r n = (g.andFilter r n).mask := by simp [andFilter]

@[simp] lemma andHaving_mask (r : RequestId) (n : NodeId) :
    g.mask.andHaving r n = (g.andHaving r n).mask := by simp [andHaving]

@[simp] lemma pushGroup_mask (r : RequestId) (n : NodeId) (p : Option PropertyRef) :
    g.mask.pushGroup r n p = (g.pushGroup r n p).mask := by simp [pushGroup]

@[simp] lemma pushOrder_mask (r : RequestId) (n : NodeId) (ascending : Bool) :
    g.mask.pushOrder r n ascending = (g.pushOrder r n ascending).mask := by simp [pushOrder]

@[simp] lemma pushJoin_mask (r : RequestId) (j : Join) :
    g.mask.pushJoin r j = (g.pushJoin r j).mask := by simp [pushJoin]

@[simp] lemma takeJoin_mask (r : RequestId) (a : AliasId) :
    g.mask.takeJoin r a = ((g.takeJoin r a).1, (g.takeJoin r a).2.mask) := by
  unfold takeJoin
  rw [request_mask]
  split <;> rfl

@[simp] lemma pushAssignment_mask (r : RequestId) (s : Assignment) :
    g.mask.pushAssignment r s = (g.pushAssignment r s).mask := by simp [pushAssignment]

end Graph

/-! ### Two readings side by side -/

namespace Graph

variable {α β α' β' : Type} {g g' : Graph} {f : Reading α β} {f' : Reading α' β'}
  {P : α → α' → Prop} {Q : β → β' → Prop}

/-- Rules that keep a relation between meanings relate the meanings of all parts. -/
theorem readWithin_related
    (hnode : ∀ part part' query query' n, (∀ c, P (part c) (part' c)) →
      (∀ r, Q (query r) (query' r)) →
      P (f.node part query (g.node n)) (f'.node part' query' (g'.node n)))
    (hrequest : ∀ part part' query query' r, (∀ c, P (part c) (part' c)) →
      (∀ r, Q (query r) (query' r)) → Q (f.request part query r) (f'.request part' query' r))
    (hendless : P f.endless f'.endless) (hagain : Q f.again f'.again) (fuel : Nat) :
    ∀ above : List RequestId,
      (∀ n, P (g.readNodeWithin f fuel above n) (g'.readNodeWithin f' fuel above n)) ∧
      ∀ r, Q (g.readRequestWithin f fuel above r) (g'.readRequestWithin f' fuel above r) := by
  induction fuel with
  | zero => exact fun above => ⟨fun n => hendless, fun r => hagain⟩
  | succ fuel ih =>
    refine fun above => ⟨fun n => ?_, fun r => ?_⟩
    · exact hnode _ _ _ _ n (ih above).1 (ih above).2
    · rw [readRequestWithin, readRequestWithin]
      split
      · exact hagain
      · exact hrequest _ _ _ _ r (ih (r :: above)).1 (ih (r :: above)).2

end Graph

/-! ### Steps -/

/-- One step on a graph does what another one does on the mask of the graph. -/
def Blind {m : Type → Type} [Monad m] {α : Type} (x y : StateT Graph m α) : Prop :=
  ∀ g : Graph, y.run g.mask = (fun r => (r.1, r.2.mask)) <$> x.run g

namespace Blind

variable {m : Type → Type} [Monad m] [LawfulMonad m] {α β : Type}

lemma pure (a : α) : Blind (Pure.pure a : StateT Graph m α) (Pure.pure a) := by
  intro g
  simp

lemma bind {x y : StateT Graph m α} {k k' : α → StateT Graph m β} (h : Blind x y)
    (hk : ∀ a, Blind (k a) (k' a)) : Blind (x >>= k) (y >>= k') := by
  intro g
  rw [StateT.run_bind, StateT.run_bind, h g, bind_map_left, map_bind]
  exact bind_congr fun r => hk r.1 r.2

lemma map {x y : StateT Graph m α} (f : α → β) (h : Blind x y) : Blind (f <$> x) (f <$> y) := by
  intro g
  rw [StateT.run_map, StateT.run_map, h g]
  simp

lemma modifyGet {f f' : Graph → α × Graph} (h : ∀ g, f' g.mask = ((f g).1, (f g).2.mask)) :
    Blind (MonadStateOf.modifyGet f : StateT Graph m α) (MonadStateOf.modifyGet f') := by
  intro g
  change (Pure.pure (f' g.mask) : m (α × Graph)) = (fun r => (r.1, r.2.mask)) <$> Pure.pure (f g)
  rw [map_pure, h g]

lemma modify {f : Graph → Graph} (h : ∀ g, f g.mask = (f g).mask) :
    Blind (modify f : StateT Graph m PUnit) (modify f) :=
  modifyGet fun g => by rw [h g]

lemma mapM {f f' : α → StateT Graph m β} (h : ∀ a, Blind (f a) (f' a)) (as : List α) :
    Blind (as.mapM f) (as.mapM f') := by
  induction as with
  | nil => exact pure []
  | cons a as ih =>
    rw [List.mapM_cons, List.mapM_cons]
    exact bind (h a) fun b => bind ih fun bs => pure _

lemma forM {f f' : α → StateT Graph m PUnit} (h : ∀ a, Blind (f a) (f' a)) (as : List α) :
    Blind (as.forM f) (as.forM f') := by
  induction as with
  | nil => exact pure _
  | cons a as ih => exact bind (h a) fun _ => ih

lemma foldlM {f f' : β → α → StateT Graph m β} (h : ∀ b a, Blind (f b a) (f' b a))
    (as : List α) (b : β) : Blind (as.foldlM f b) (as.foldlM f' b) := by
  induction as generalizing b with
  | nil => exact pure b
  | cons a as ih =>
    rw [List.foldlM_cons, List.foldlM_cons]
    exact bind (h b a) fun b => ih b

lemma forM_option {f f' : α → StateT Graph m PUnit} (h : ∀ a, Blind (f a) (f' a))
    (a : Option α) : Blind (a.forM f) (a.forM f') := by
  cases a with
  | none => exact pure _
  | some a => exact h a

end Blind

namespace Build

lemma blind_add (node : Node) : Blind (add node) (add node.mask) :=
  Blind.modifyGet fun g => g.add_mask node

lemma blind_addAlias (a : Alias) : Blind (addAlias a) (addAlias a) :=
  Blind.modifyGet fun g => g.addAlias_mask a

lemma blind_addRequest (parent : Option RequestId) :
    Blind (addRequest parent) (addRequest parent) :=
  Blind.modifyGet fun g => g.addRequest_mask parent

end Build

/-! ### Copies -/

lemma Blind.lift {α : Type} {x y : Build α} (h : Blind x y) :
    Blind (liftM x : Copy α) (liftM y : Copy α) := by
  intro g
  change some (y.run g.mask) = _ <$> some (x.run g)
  rw [h g]
  rfl

lemma Blind.failure {α : Type} : Blind (failure : Copy α) (failure : Copy α) := fun _ => rfl

namespace Swap

variable {part part' : NodeId → Renames → Copy NodeId}
  {query query' : RequestId → Renames → Copy RequestId}

lemma blind_copyNode (hpart : ∀ n ren, Blind (part n ren) (part' n ren))
    (hquery : ∀ r ren, Blind (query r ren) (query' r ren)) (n : Node) (ren : Renames) :
    Blind (({} : Swap).copyNode part query n ren) (({} : Swap).copyNode part' query' n.mask ren) := by
  match n with
  | .column a c => exact (Build.blind_add _).lift
  | .row a => exact (Build.blind_add _).lift
  | .const v => exact (Build.blind_add (.const v)).lift
  | .unary op none => exact (Build.blind_add _).lift
  | .unary op (some e) => exact (hpart e ren).bind fun e => (Build.blind_add (.unary op e)).lift
  | .binary op l r =>
    exact (hpart l ren).bind fun l => (hpart r ren).bind fun r => (Build.blind_add (.binary op l r)).lift
  | .isIn e vs =>
    exact (hpart e ren).bind fun e => (Blind.mapM (fun n => hpart n ren) vs).bind fun vs =>
      (Build.blind_add (.isIn e vs)).lift
  | .cond t y n =>
    exact (hpart t ren).bind fun t => (hpart y ren).bind fun y => (hpart n ren).bind fun n =>
      (Build.blind_add (.cond t y n)).lift
  | .sub r => exact (hquery r ren).bind fun r => (Build.blind_add (.sub r)).lift

lemma blind_copySource (g : Graph) (hquery : ∀ r ren, Blind (query r ren) (query' r ren))
    (ren : Renames) (a : AliasId) :
    Blind (({} : Swap).copySource g query ren a) (({} : Swap).copySource g.mask query' ren a) := by
  have hfresh : ∀ origin : Origin, Blind
      (do let fresh ← (liftM (Build.addAlias { g.aliasOf a with
            origin, route := ({} : Swap).route ren (g.aliasOf a).route }) : Copy AliasId)
          return { ren with aliases := (a, fresh) :: ren.aliases }) _ :=
    fun origin => ((Build.blind_addAlias _).lift).bind fun fresh => Blind.pure _
  unfold copySource
  rw [Graph.aliasOf_mask]
  dsimp only
  split
  · exact (Blind.pure _).bind hfresh
  · exact ((hquery _ ren).map _).bind hfresh

lemma blind_copyRequest (g : Graph) (hpart : ∀ n ren, Blind (part n ren) (part' n ren))
    (hquery : ∀ r ren, Blind (query r ren) (query' r ren)) (r : RequestId) (ren : Renames) :
    Blind (({} : Swap).copyRequest g part query r ren)
      (({} : Swap).copyRequest g.mask part' query' r ren) := by
  unfold copyRequest
  rw [Graph.request_mask]
  refine ((Build.blind_addRequest _).lift).bind fun new => ?_
  refine (Blind.foldlM (fun ren a => blind_copySource g hquery ren a) _ _).bind fun ren => ?_
  refine Blind.bind (Blind.modify fun g => g.modifyRequest_mask new _) fun _ => ?_
  refine (Blind.forM (fun j => ?_) _).bind fun _ => ?_
  · exact (hpart _ ren).bind fun n => Blind.modify fun g => g.pushJoin_mask new _
  refine (Blind.forM (fun i => ?_) _).bind fun _ => ?_
  · exact (hpart _ ren).bind fun n => Blind.modify fun g => g.pushItem_mask new _
  refine (Blind.forM_option (fun n => ?_) _).bind fun _ => ?_
  · exact (hpart _ ren).bind fun n => Blind.modify fun g => g.andFilter_mask new n
  refine (Blind.forM_option (fun n => ?_) _).bind fun _ => ?_
  · exact (hpart _ ren).bind fun n => Blind.modify fun g => g.andHaving_mask new n
  refine (Blind.forM (fun k => ?_) _).bind fun _ => ?_
  · exact (hpart _ ren).bind fun n => Blind.modify fun g => g.pushGroup_mask new n _
  refine (Blind.forM (fun o => ?_) _).bind fun _ => ?_
  · exact (hpart _ ren).bind fun n => Blind.modify fun g => g.pushOrder_mask new n _
  refine (Blind.forM (fun s => ?_) _).bind fun _ => Blind.pure new
  exact (hpart _ ren).bind fun c => (hpart _ ren).bind fun v =>
    Blind.modify fun g => g.pushAssignment_mask new ⟨c, v⟩

lemma blind_copying (g : Graph) (n : NodeId) (ren : Renames) :
    Blind (g.readNode (({} : Swap).copying g) n ren)
      (g.mask.readNode (({} : Swap).copying g.mask) n ren) := by
  rw [Graph.readNode, Graph.readNode, Graph.height_mask]
  refine (Graph.readWithin_related
    (P := fun (x y : Renames → Copy NodeId) => ∀ ren, Blind (x ren) (y ren))
    (Q := fun (x y : Renames → Copy RequestId) => ∀ ren, Blind (x ren) (y ren))
    ?_ ?_ (fun _ => Blind.failure) (fun _ => Blind.failure) g.height []).1 n ren
  · intro part part' query query' n hpart hquery ren
    rw [Graph.node_mask]
    exact blind_copyNode hpart hquery _ ren
  · exact fun part part' query query' r hpart hquery ren => blind_copyRequest g hpart hquery r ren

end Swap

/-- A copy of a value does not look at its constants. -/
lemma Build.blind_duplicate (n : NodeId) : Blind (duplicate n) (duplicate n) := by
  refine Blind.modifyGet fun g => ?_
  have h := Swap.blind_copying g n {} g
  rw [h]
  cases ((g.readNode (({} : Swap).copying g) n {}).run g) <;> rfl

end Sql

end EntityQuery
