import EntityQuery.Proofs.Lockstep.Joins

/-!
Properties of rows in graphs that differ in the kinds of their joins.

* `K (.ofWiden w) (.ofWiden w')` relates what two runs ask of a navigation: where both resolve a
  property, they join the same tables and widen the same joins, up to `K`.
* A value is captured the same from both graphs, so that both register the same fragments.
-/

namespace EntityQuery

open Sql

variable {K : JoinKind → JoinKind → Prop}

/-! ### Fragments -/

namespace Fragment

lemma ofNode?_rejoined {g h : Graph} (hg : g.Rejoined K h) (anchor : AliasId) (n : NodeId) :
    ofNode? h anchor n = ofNode? g anchor n := by
  unfold ofNode?
  rw [Graph.readNode, Graph.readNode, hg.height]
  refine (@Graph.readWithin_related _ _ _ _ h g (capturing h anchor) (capturing g anchor) Eq Eq
    ?_ (fun _ _ _ _ _ _ _ => rfl) rfl rfl g.height []).1 n
  intro part part' query query' n hpart _
  obtain rfl : part = part' := funext hpart
  rw [hg.node]
  cases g.node n with
  | column a name => simp only [capturing, hg.pathFrom?]
  | row a => simp only [capturing, hg.pathFrom?]
  | unary op operand => cases operand <;> rfl
  | _ => rfl

end Fragment

lemma Mapping.register_rejoined (m : Mapping) {g h : Graph} (hg : g.Rejoined K h) (p : PropertyRef)
    (n : NodeId) : m.register h p n = m.register g p n := by
  have hfragment : (do Fragment.ofNode? h (← (h.request (← h.owner? n)).base) n) =
      (do Fragment.ofNode? g (← (g.request (← g.owner? n)).base) n) := by
    simp only [hg.owner?, (hg.request _).base, Fragment.ofNode?_rejoined hg]
  rw [register, register, hfragment]

/-! ### Steps that may fail -/

/-- Two resolutions have the same outcomes from graphs that differ in the kinds of joins. -/
def Resolve.Tracks (K : JoinKind → JoinKind → Prop) {α : Type} (x y : Resolve α) : Prop :=
  Sql.Tracks K x.run y.run

namespace Resolve.Tracks

variable {α β : Type}

lemma pure (a : α) : Tracks K (Pure.pure a : Resolve α) (Pure.pure a) := Sql.Tracks.pure _

lemma throw (e : MappingError) :
    Tracks K (MonadExcept.throw e : Resolve α) (MonadExcept.throw e) := Sql.Tracks.pure _

lemma ask (answer : Except MappingError α) :
    Tracks K (Resolve.ask answer) (Resolve.ask answer) := Sql.Tracks.pure _

lemma bind {x y : Resolve α} {k k' : α → Resolve β} (hx : Tracks K x y)
    (hk : ∀ a, Tracks K (k a) (k' a)) : Tracks K (x >>= k) (y >>= k') := by
  rw [Tracks, ExceptT.run_bind, ExceptT.run_bind]
  refine Sql.Tracks.bind hx fun a => ?_
  cases a with
  | ok a => exact hk a
  | error e => exact Sql.Tracks.pure _

lemma map {x y : Resolve α} (f : α → β) (hx : Tracks K x y) : Tracks K (f <$> x) (f <$> y) :=
  bind hx fun a => pure (f a)

lemma get_bind {k k' : Graph → Resolve β}
    (hk : ∀ g h : Graph, g.Rejoined K h → Tracks K (k g) (k' h)) :
    Tracks K (get >>= k) (get >>= k') := fun g h hg => hk g h hg g h hg

lemma lift {x y : Build α} (hx : Sql.Tracks K x y) :
    Tracks K (liftM x : Resolve α) (liftM y) := Sql.Tracks.map _ hx

end Resolve.Tracks

/-! ### Placing -/

namespace Fragment

variable {walk walk' : List PropertyRef → Resolve AliasId}

mutual
theorem tracks_place (h : ∀ path, Resolve.Tracks K (walk path) (walk' path)) :
    ∀ f : Fragment, Resolve.Tracks K (f.place walk) (f.place walk')
  | .column path name => (h path).bind fun a => .lift (Build.tracks_add (.column a name))
  | .row path => (h path).bind fun a => .lift (Build.tracks_add (.row a))
  | .const v => .lift (Build.tracks_add (.const v))
  | .unary op none => .lift (Build.tracks_add (.unary op none))
  | .unary op (some e) =>
    (tracks_place h e).bind fun e => .lift (Build.tracks_add (.unary op (some e)))
  | .binary op l r =>
    (tracks_place h l).bind fun l => (tracks_place h r).bind fun r =>
      .lift (Build.tracks_add (.binary op l r))
  | .isIn e vs =>
    (tracks_place h e).bind fun e => (tracks_placeAll h vs).bind fun vs =>
      .lift (Build.tracks_add (.isIn e vs))
  | .cond t y n =>
    (tracks_place h t).bind fun t => (tracks_place h y).bind fun y => (tracks_place h n).bind fun n =>
      .lift (Build.tracks_add (.cond t y n))

theorem tracks_placeAll (h : ∀ path, Resolve.Tracks K (walk path) (walk' path)) :
    ∀ fs : List Fragment, Resolve.Tracks K (placeAll walk fs) (placeAll walk' fs)
  | [] => .pure []
  | f :: fs => (tracks_place h f).bind fun _ => (tracks_placeAll h fs).bind fun _ => .pure _
end

end Fragment

/-! ### Joins -/

section Joins

variable {w w' : Bool}

lemma tracks_joinOn (hw : K (.ofWiden w) (.ofWiden w')) {r : RequestId} {source a b : AliasId}
    {column column' : String} :
    Sql.Tracks K (joinOn r source w a column b column') (joinOn r source w' a column b column') := by
  refine Tracks.bind (Tracks.bind (Build.tracks_add (.column a column)) fun l =>
    Tracks.bind (Build.tracks_add (.column b column')) fun r =>
      Build.tracks_add (.binary .equal l r)) fun condition => ?_
  exact .modify fun g h hg => hg.pushJoin r ⟨rfl, rfl, hw⟩

namespace Mapping

variable (m : Mapping)

lemma tracks_tableAlias (entity : String) (route : Route) :
    Resolve.Tracks K (m.tableAlias entity route) (m.tableAlias entity route) :=
  (Resolve.Tracks.ask _).bind fun _ => (Resolve.Tracks.ask _).bind fun _ =>
    .lift (Build.tracks_addAlias _)

/-- A reference is joined in both graphs, or in neither: then both join it, or let its join keep rows
without a partner. -/
lemma tracks_joinReference [Std.Refl K] (hw : K (.ofWiden w) (.ofWiden w')) {r : RequestId} {owner : AliasId}
    {p : PropertyRef} {column target : String} :
    Resolve.Tracks K (m.joinReference r owner p column target w)
      (m.joinReference r owner p column target w') := by
  refine .get_bind fun g h hg => ?_
  rw [hg.navigated?]
  cases g.navigated? r owner p with
  | some a =>
    have hmodify : ∀ w : Bool,
        (do if w then modify (·.widenJoin r a)
            return a : Resolve AliasId) =
          (liftM (modify fun g => if w then g.widenJoin r a else g : Build PUnit) >>= fun _ =>
            pure a) := by
      intro w
      cases w <;> rfl
    have htracks : Sql.Tracks (m := Id) K (modify fun g => if w then g.widenJoin r a else g)
        (modify fun g => if w' then g.widenJoin r a else g) :=
      .modify fun g h hg => hg.widenJoin hw r a
    dsimp only
    rw [hmodify, hmodify]
    exact (Resolve.Tracks.lift htracks).bind fun _ => .pure a
  | none =>
    refine (m.tracks_tableAlias _ _).bind fun a => (Resolve.Tracks.ask _).bind fun key => ?_
    exact (Resolve.Tracks.lift (tracks_joinOn hw)).bind fun _ => .pure a

lemma tracks_joinCollection (hw : K (.ofWiden w) (.ofWiden w')) {r : RequestId} {owner : AliasId}
    {p : PropertyRef} {column target : String} :
    Resolve.Tracks K (m.joinCollection r owner p column target w)
      (m.joinCollection r owner p column target w') := by
  refine (m.tracks_tableAlias _ _).bind fun a => (Resolve.Tracks.ask _).bind fun key => ?_
  exact (Resolve.Tracks.lift (tracks_joinOn hw)).bind fun _ => .pure a

lemma tracks_joinLinked (hw : K (.ofWiden w) (.ofWiden w')) {r : RequestId} {owner : AliasId}
    {p : PropertyRef} {target linkTable ownerColumn targetColumn : String} :
    Resolve.Tracks K (m.joinLinked r owner p target linkTable ownerColumn targetColumn w)
      (m.joinLinked r owner p target linkTable ownerColumn targetColumn w') := by
  refine (Resolve.Tracks.ask _).bind fun ownerKey => (Resolve.Tracks.ask _).bind fun targetKey => ?_
  refine (Resolve.Tracks.lift (Build.tracks_addAlias _)).bind fun link => ?_
  refine (Resolve.Tracks.lift (tracks_joinOn hw)).bind fun _ => ?_
  refine (m.tracks_tableAlias _ _).bind fun a => ?_
  exact (Resolve.Tracks.lift (tracks_joinOn hw)).bind fun _ => .pure a

/-! ### Properties -/

lemma tracks_locate [Std.Refl K] (hw : K (.ofWiden w) (.ofWiden w')) (r : RequestId) (owner : AliasId)
    (p : PropertyRef) : Resolve.Tracks K (m.locate r owner p w) (m.locate r owner p w') := by
  refine (Resolve.Tracks.ask _).bind fun stored => ?_
  cases stored.kind with
  | scalar => exact .map _ (.lift (Build.tracks_add (.column owner stored.column)))
  | reference target => exact .map _ (m.tracks_joinReference hw)
  | collection target => exact .map _ (m.tracks_joinCollection hw)
  | manyToMany target link oc tc => exact .map _ (m.tracks_joinLinked hw)

lemma tracks_walk {resolve resolve' : AliasId → PropertyRef → Resolve Resolved}
    (h : ∀ a p, Resolve.Tracks K (resolve a p) (resolve' a p)) (path : List PropertyRef)
    (owner : AliasId) : Resolve.Tracks K (walk resolve owner path) (walk resolve' owner path) := by
  induction path generalizing owner with
  | nil => exact .pure owner
  | cons p path ih =>
    refine (h owner p).bind fun resolved => ?_
    cases resolved with
    | row a => exact ih a
    | value n => exact .throw _

lemma tracks_resolveWithin [Std.Refl K] (hw : K (.ofWiden w) (.ofWiden w')) (r : RequestId) (fuel : Nat)
    (owner : AliasId) (p : PropertyRef) :
    Resolve.Tracks K (m.resolveWithin r w fuel owner p) (m.resolveWithin r w' fuel owner p) := by
  induction fuel generalizing owner p with
  | zero =>
    rw [resolveWithin, resolveWithin]
    cases m.equivalents.find? p with
    | none => exact m.tracks_locate hw r owner p
    | some f => exact .throw _
  | succ fuel ih =>
    rw [resolveWithin, resolveWithin]
    cases m.equivalents.find? p with
    | none => exact m.tracks_locate hw r owner p
    | some f => exact .map _ (f.tracks_place fun path => tracks_walk ih path owner)

lemma tracks_resolve [Std.Refl K] (hw : K (.ofWiden w) (.ofWiden w')) (r : RequestId) (owner : AliasId)
    (p : PropertyRef) : Resolve.Tracks K (m.resolve r owner p w) (m.resolve r owner p w') :=
  m.tracks_resolveWithin hw r _ owner p

end Mapping

end Joins

end EntityQuery
