import EntityQuery.Proofs.Masking.Graph

/-!
Fragments and mappings without the contents of their constants.

* A value is captured, kept and placed without a look at its constants, so that what a mapping
  registers and resolves is the same up to `mask`.
-/

namespace EntityQuery

open Sql

/-! ### Fragments -/

namespace Fragment

mutual
/-- A fragment without the contents of its constants. -/
def mask : Fragment → Fragment
  | .column path name => .column path name
  | .row path => .row path
  | .const v => .const v.mask
  | .unary op none => .unary op none
  | .unary op (some e) => .unary op (some (mask e))
  | .binary op l r => .binary op (mask l) (mask r)
  | .isIn e vs => .isIn (mask e) (maskAll vs)
  | .cond t y n => .cond (mask t) (mask y) (mask n)

def maskAll : List Fragment → List Fragment
  | [] => []
  | f :: fs => mask f :: maskAll fs
end

lemma mapM_mask {part part' : NodeId → Option Fragment} (h : ∀ n, part' n = (part n).map mask)
    (ns : List NodeId) : ns.mapM part' = (ns.mapM part).map maskAll := by
  induction ns with
  | nil => rfl
  | cons n ns ih =>
    rw [List.mapM_cons, List.mapM_cons, ih, h]
    cases part n with
    | none => rfl
    | some f => cases ns.mapM part <;> rfl

lemma ofNode?_mask (g : Graph) (anchor : AliasId) (n : NodeId) :
    ofNode? g.mask anchor n = (ofNode? g anchor n).map mask := by
  unfold ofNode?
  rw [Graph.readNode, Graph.readNode, Graph.height_mask]
  refine (Graph.readWithin_related (P := fun (x y : Option Fragment) => y = x.map mask)
    (Q := fun (_ _ : Unit) => True) ?_ (fun _ _ _ _ _ _ _ => trivial) rfl trivial g.height []).1 n
  intro part part' query query' n hpart _
  rw [Graph.node_mask]
  cases g.node n with
  | column a name =>
    simp only [capturing, Node.mask, Graph.pathFrom?_mask]
    cases g.pathFrom? anchor a <;> rfl
  | row a =>
    simp only [capturing, Node.mask, Graph.pathFrom?_mask]
    cases g.pathFrom? anchor a <;> rfl
  | const v => rfl
  | unary op e =>
    cases e with
    | none => rfl
    | some e =>
      simp only [capturing, Node.mask, hpart]
      cases part e <;> rfl
  | binary op l r =>
    simp only [capturing, Node.mask, hpart]
    cases part l <;> cases part r <;> rfl
  | isIn e vs =>
    simp only [capturing, Node.mask, hpart, mapM_mask hpart]
    cases part e <;> cases vs.mapM part <;> rfl
  | cond t y n =>
    simp only [capturing, Node.mask, hpart]
    cases part t <;> cases part y <;> cases part n <;> rfl
  | sub r => rfl

end Fragment

/-! ### Steps that may fail -/

/-- One resolution does on a graph what another one does on the mask of the graph. -/
def Resolve.Blind {α : Type} (x y : Resolve α) : Prop := Sql.Blind x.run y.run

namespace Resolve.Blind

variable {α β : Type}

lemma pure (a : α) : Blind (Pure.pure a : Resolve α) (Pure.pure a) := Sql.Blind.pure _

lemma throw (e : MappingError) : Blind (MonadExcept.throw e : Resolve α) (MonadExcept.throw e) :=
  Sql.Blind.pure _

lemma ask (answer : Except MappingError α) : Blind (Resolve.ask answer) (Resolve.ask answer) :=
  Sql.Blind.pure _

lemma bind {x y : Resolve α} {k k' : α → Resolve β} (h : Blind x y)
    (hk : ∀ a, Blind (k a) (k' a)) : Blind (x >>= k) (y >>= k') := by
  rw [Blind, ExceptT.run_bind, ExceptT.run_bind]
  refine Sql.Blind.bind h fun a => ?_
  cases a with
  | ok a => exact hk a
  | error e => exact Sql.Blind.pure _

lemma map {x y : Resolve α} (f : α → β) (h : Blind x y) : Blind (f <$> x) (f <$> y) :=
  bind h fun a => pure (f a)

lemma get_bind {k k' : Graph → Resolve β} (h : ∀ g, Blind (k g) (k' g.mask)) :
    Blind (get >>= k) (get >>= k') := fun g => h g g

lemma lift {x y : Build α} (h : Sql.Blind x y) : Blind (liftM x : Resolve α) (liftM y) :=
  Sql.Blind.map _ h

end Resolve.Blind

/-! ### Placing -/

namespace Fragment

variable {walk walk' : List PropertyRef → Resolve AliasId}

mutual
theorem blind_place (h : ∀ path, Resolve.Blind (walk path) (walk' path)) :
    ∀ f : Fragment, Resolve.Blind (f.place walk) (f.mask.place walk')
  | .column path name => (h path).bind fun a => .lift (Build.blind_add (.column a name))
  | .row path => (h path).bind fun a => .lift (Build.blind_add (.row a))
  | .const v => .lift (Build.blind_add (.const v))
  | .unary op none => .lift (Build.blind_add (.unary op none))
  | .unary op (some e) =>
    (blind_place h e).bind fun e => .lift (Build.blind_add (.unary op (some e)))
  | .binary op l r =>
    (blind_place h l).bind fun l => (blind_place h r).bind fun r =>
      .lift (Build.blind_add (.binary op l r))
  | .isIn e vs =>
    (blind_place h e).bind fun e => (blind_placeAll h vs).bind fun vs =>
      .lift (Build.blind_add (.isIn e vs))
  | .cond t y n =>
    (blind_place h t).bind fun t => (blind_place h y).bind fun y => (blind_place h n).bind fun n =>
      .lift (Build.blind_add (.cond t y n))

theorem blind_placeAll (h : ∀ path, Resolve.Blind (walk path) (walk' path)) :
    ∀ fs : List Fragment, Resolve.Blind (placeAll walk fs) (placeAll walk' (maskAll fs))
  | [] => .pure []
  | f :: fs => (blind_place h f).bind fun _ => (blind_placeAll h fs).bind fun _ => .pure _
end

end Fragment

/-! ### Mappings -/

namespace Mapping

/-- A mapping without the contents of constants. -/
def mask (m : Mapping) : Mapping :=
  { m with equivalents := m.equivalents.map fun e => (e.1, e.2.mask) }

variable (m : Mapping)

@[simp] lemma catalog_mask : m.mask.catalog = m.catalog := rfl

@[simp] lemma readsKeyOf_mask (p : PropertyRef) : m.mask.readsKeyOf p = m.readsKeyOf p := rfl

lemma find?_mask (p : PropertyRef) :
    m.mask.equivalents.find? p = (m.equivalents.find? p).map Fragment.mask := by
  simp only [mask, PropertyTable.find?, List.find?_map, Function.comp_def, Option.map_map]

lemma insert_mask (t : PropertyTable Fragment) (p : PropertyRef) (f : Fragment) :
    PropertyTable.insert (t.map fun e => (e.1, e.2.mask)) p f.mask =
      (t.insert p f).map fun e => (e.1, e.2.mask) := by
  simp only [PropertyTable.insert, PropertyTable.erase, List.map_cons, List.filter_map,
    Function.comp_def]

lemma register_mask (g : Graph) (p : PropertyRef) (n : NodeId) :
    m.mask.register g.mask p n = (m.register g p n).mask := by
  -- the fragment of a masked graph is the mask of the fragment
  have hfragment : (do Fragment.ofNode? g.mask (← (g.mask.request (← g.mask.owner? n)).base) n) =
      (do Fragment.ofNode? g (← (g.request (← g.owner? n)).base) n).map Fragment.mask := by
    rw [Graph.owner?_mask]
    cases g.owner? n with
    | none => rfl
    | some r =>
      simp only [Option.bind_eq_bind, Option.bind_some, Graph.request_mask]
      cases (g.request r).base with
      | none => rfl
      | some a => exact Fragment.ofNode?_mask g a n
  unfold register
  rw [hfragment]
  dsimp only
  cases (do Fragment.ofNode? g (← (g.request (← g.owner? n)).base) n) with
  | none => rfl
  | some f => simp only [Option.map_some, mask, insert_mask]

end Mapping

/-! ### Joins -/

lemma blind_joinOn {r : RequestId} {source : AliasId} {widen : Bool} {a : AliasId}
    {column : String} {b : AliasId} {column' : String} :
    Sql.Blind (joinOn r source widen a column b column')
      (joinOn r source widen a column b column') := by
  refine Blind.bind (Blind.bind (Build.blind_add (.column a column)) fun l =>
    Blind.bind (Build.blind_add (.column b column')) fun r => Build.blind_add (.binary .equal l r))
    fun condition => ?_
  exact Blind.modify fun g => g.pushJoin_mask r _

namespace Mapping

variable (m : Mapping)

lemma blind_tableAlias (entity : String) (route : Route) :
    Resolve.Blind (m.tableAlias entity route) (m.mask.tableAlias entity route) :=
  (Resolve.Blind.ask _).bind fun _ => (Resolve.Blind.ask _).bind fun _ =>
    .lift (Build.blind_addAlias _)

lemma blind_joinReference {r : RequestId} {owner : AliasId} {p : PropertyRef}
    {column target : String} {widen : Bool} :
    Resolve.Blind (m.joinReference r owner p column target widen)
      (m.mask.joinReference r owner p column target widen) := by
  refine .get_bind fun g => ?_
  rw [Graph.navigated?_mask]
  cases g.navigated? r owner p with
  | some a =>
    cases widen with
    | false => exact .pure a
    | true =>
      have hwiden : Sql.Blind (m := Id) (modify (·.widenJoin r a)) (modify (·.widenJoin r a)) :=
        Blind.modify fun g => g.widenJoin_mask r a
      exact (Resolve.Blind.lift hwiden).bind fun _ => .pure a
  | none =>
    refine (m.blind_tableAlias _ _).bind fun a => (Resolve.Blind.ask _).bind fun key => ?_
    exact (Resolve.Blind.lift blind_joinOn).bind fun _ => .pure a

lemma blind_joinCollection {r : RequestId} {owner : AliasId} {p : PropertyRef}
    {column target : String} {widen : Bool} :
    Resolve.Blind (m.joinCollection r owner p column target widen)
      (m.mask.joinCollection r owner p column target widen) := by
  refine (m.blind_tableAlias _ _).bind fun a => (Resolve.Blind.ask _).bind fun key => ?_
  exact (Resolve.Blind.lift blind_joinOn).bind fun _ => .pure a

lemma blind_joinLinked {r : RequestId} {owner : AliasId} {p : PropertyRef}
    {target linkTable ownerColumn targetColumn : String} {widen : Bool} :
    Resolve.Blind (m.joinLinked r owner p target linkTable ownerColumn targetColumn widen)
      (m.mask.joinLinked r owner p target linkTable ownerColumn targetColumn widen) := by
  refine (Resolve.Blind.ask _).bind fun ownerKey => (Resolve.Blind.ask _).bind fun targetKey => ?_
  refine (Resolve.Blind.lift (Build.blind_addAlias _)).bind fun link => ?_
  refine (Resolve.Blind.lift blind_joinOn).bind fun _ => ?_
  refine (m.blind_tableAlias _ _).bind fun a => ?_
  exact (Resolve.Blind.lift blind_joinOn).bind fun _ => .pure a

/-! ### Properties -/

lemma blind_locate (r : RequestId) (owner : AliasId) (p : PropertyRef) (widen : Bool) :
    Resolve.Blind (m.locate r owner p widen) (m.mask.locate r owner p widen) := by
  refine (Resolve.Blind.ask _).bind fun stored => ?_
  cases stored.kind with
  | scalar => exact Resolve.Blind.map _ (.lift (Build.blind_add (.column owner stored.column)))
  | reference target => exact Resolve.Blind.map _ m.blind_joinReference
  | collection target => exact Resolve.Blind.map _ m.blind_joinCollection
  | manyToMany target link oc tc => exact Resolve.Blind.map _ m.blind_joinLinked

lemma blind_walk {resolve resolve' : AliasId → PropertyRef → Resolve Resolved}
    (h : ∀ a p, Resolve.Blind (resolve a p) (resolve' a p)) (path : List PropertyRef)
    (owner : AliasId) : Resolve.Blind (walk resolve owner path) (walk resolve' owner path) := by
  induction path generalizing owner with
  | nil => exact .pure owner
  | cons p path ih =>
    refine (h owner p).bind fun resolved => ?_
    cases resolved with
    | row a => exact ih a
    | value n => exact .throw _

lemma blind_resolveWithin (r : RequestId) (widen : Bool) (fuel : Nat) (owner : AliasId)
    (p : PropertyRef) :
    Resolve.Blind (m.resolveWithin r widen fuel owner p)
      (m.mask.resolveWithin r widen fuel owner p) := by
  induction fuel generalizing owner p with
  | zero =>
    rw [resolveWithin, resolveWithin, find?_mask]
    cases m.equivalents.find? p with
    | none => exact m.blind_locate r owner p widen
    | some f => exact .throw _
  | succ fuel ih =>
    rw [resolveWithin, resolveWithin, find?_mask]
    cases m.equivalents.find? p with
    | none => exact m.blind_locate r owner p widen
    | some f =>
      exact Resolve.Blind.map _ (f.blind_place fun path => blind_walk (fun a q => ih a q) path owner)

lemma blind_resolve (r : RequestId) (owner : AliasId) (p : PropertyRef) (widen : Bool) :
    Resolve.Blind (m.resolve r owner p widen) (m.mask.resolve r owner p widen) := by
  have hnesting : m.mask.nesting = m.nesting := by simp [nesting, mask]
  rw [resolve, resolve, hnesting]
  exact m.blind_resolveWithin r widen _ owner p

end Mapping

end EntityQuery
