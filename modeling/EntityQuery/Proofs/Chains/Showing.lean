import EntityQuery.Proofs.Chains.Steps

/-!
Projections of groups.

* A projection shows a key, a member of a key, or an object whose members are scalar expressions over
  the group, whole keys, or objects again.
* `Showing.selection` is what it selects, and what its members hold from then on: a copy of the value
  that was selected.
* `Ranged.select` is the step for a projection, by one lemma for each form of a member.
-/

namespace EntityQuery

open Sql

/-- A property that has been taken out of a table has no value there. -/
lemma PropertyTable.find?_erase_of_same {α : Type} {t : PropertyTable α} {p q : PropertyRef}
    (h : p.same q = true) : (t.erase p).find? q = none := by
  rw [find?, Option.map_eq_none_iff, List.find?_eq_none]
  intro row hrow hsame
  have hother := (List.mem_filter.1 hrow).2
  simp only [PropertyRef.same, Bool.not_eq_true', Bool.and_eq_true, beq_iff_eq] at h hsame hother
  simp [hsame, h] at hother

/-! ### What is shown -/

namespace Compile.Selection

/-- A further value, which a member holds. -/
def add (V : Selection) (p : PropertyRef) (f : Fragment) : Selection :=
  ⟨V.items ++ [f], V.values.insert p f⟩

/-- A key member by member. -/
def addKeys (V : Selection) (keys : GroupKeys) : Selection :=
  { V with items := V.items ++ keys.map fun k => .column [] k.1 }

variable (value : Expr → Fragment) (keys : GroupKeys)

mutual
/-- What a member shows. Only a key of its own is held, the members of others are not. -/
def addMember (V : Selection) (p : PropertyRef) : Expr → Selection
  | .new _ members => addMembers V members
  | .key _ =>
    match keys with
    | [(column, none)] => V.add p (.column [] column)
    | _ => V.addKeys keys
  | e => V.add p (value e)

def addMembers (V : Selection) : List (PropertyRef × Expr) → Selection
  | [] => V
  | (p, e) :: rest => addMembers (addMember V p e) rest
end

end Compile.Selection

namespace Expr

variable (leaf : Expr → Option Fragment) (foreign : PropertyRef → Bool) (g : Param)

mutual
/-- Whether a member of an object is an object, a key or a scalar expression, and no member of the
rows. -/
def showsMember (p : PropertyRef) : Expr → Bool
  | .new _ members => showsMembers members
  | .key (.param q) => q == g && foreign p
  | e => e.isScalar leaf && foreign p

def showsMembers : List (PropertyRef × Expr) → Bool
  | [] => true
  | (p, e) :: rest => showsMember p e && showsMembers rest
end

/-- The value of a scalar expression over a group. -/
def inGroup (c : Catalog) (entity : String) (keys : GroupKeys) (g : Param) (e : Expr) : Fragment :=
  e.written (groupLeaf c entity keys g) c

/-- The leaves over what a projection shows: the members that hold a value. -/
def heldLeaf (values : PropertyTable Fragment) (p : Param) : Expr → Option Fragment
  | .member (.param q) property => if q = p then values.find? property else none
  | _ => none

end Expr

/-- What a query shows of a group. -/
inductive Showing where
  /-- The key, or a member of it. -/
  | key (g : Param) (member : Option PropertyRef)
  | object (g : Param) (type : String) (members : List (PropertyRef × Expr))

namespace Showing

def param : Showing → Param
  | .key g _ => g
  | .object g _ _ => g

def body : Showing → Expr
  | .key g none => .key (.param g)
  | .key g (some p) => .member (.key (.param g)) p
  | .object _ type members => .new type members

def expr (q : Expr) (w : Showing) : Expr := .call .select [q, .lambda [w.param] w.body]

variable (c : Catalog) (entity : String) (keys : GroupKeys)

/-- Whether all that is shown is scalar, and no member of the rows. -/
def fits (w : Showing) : Bool :=
  match w with
  | .key g _ => w.body.isScalar (Expr.groupLeaf c entity keys g)
  | .object g _ members => Expr.showsMembers (Expr.groupLeaf c entity keys g)
    (fun p => (c.ownColumn? entity p).isNone) g members

/-- **What is selected, and what members hold it.** -/
def selection (w : Showing) : Compile.Selection :=
  match w with
  | .key g _ => { items := [w.body.inGroup c entity keys g] }
  | .object g _ members => .addMembers (·.inGroup c entity keys g) keys {} members

end Showing

namespace Compile

open Graph

variable {m : Mapping} {entity : String} {K : Clauses} {V : Selection} {s t : CompileState}
  {f : Fragment} {n : NodeId}

/-! ### Tables -/

lemma Holds.erase {g : Graph} {values : PropertyTable Fragment} {computed : PropertyTable NodeId}
    (hc : Holds g values computed) (p : PropertyRef) : Holds g (values.erase p) (computed.erase p) := by
  induction hc with
  | nil => exact .nil
  | @cons k x values computed hx _ ih =>
    rw [PropertyTable.erase, PropertyTable.erase, List.filter_cons, List.filter_cons, hx.1]
    split
    · exact .cons hx ih
    · exact ih

lemma Holds.insert {g : Graph} {values : PropertyTable Fragment} {computed : PropertyTable NodeId}
    (hc : Holds g values computed) (p : PropertyRef) (hn : f.At g ⟨0⟩ n) :
    Holds g (values.insert p f) (computed.insert p n) := .cons ⟨rfl, hn⟩ (hc.erase p)

/-- Own members are not among those of an object. -/
lemma same_eq_false_of_own {p o : PropertyRef} (hp : m.catalog.ownColumn? entity p = none)
    (ho : (m.catalog.ownColumn? entity o).isSome = true) : p.same o = false := by
  by_contra hsame
  rw [Bool.not_eq_false] at hsame
  rw [← ownColumn?_of_same _ hsame, hp] at ho
  cases ho

/-! ### Steps of a projection -/

section Steps

variable (hs : Alone m entity K V s)
include hs

/-- A member holds a value from now on. -/
lemma Alone.ensures_setComputed {p : PropertyRef} (hp : m.catalog.ownColumn? entity p = none)
    (hn : f.At s.graph ⟨0⟩ n) : Ensures (setComputed p n) s fun _ t =>
      Alone m entity K { V with values := V.values.insert p f } t ∧ t.graph = s.graph := by
  refine ensures_modify.2 ⟨{ hs with
    own := fun o ho => ?_
    held := fun q hq => ?_
    computed := hs.computed.insert p hn }, rfl⟩
  · obtain ⟨hfree, hvalues, hpaths⟩ := hs.own o ho
    exact ⟨hfree, PropertyTable.find?_insert_eq_none hvalues (same_eq_false_of_own hp ho) f,
      PropertyTable.find?_erase_eq_none hpaths⟩
  · change (s.paths.erase p).find? q = none
    cases hsame : p.same q with
    | true => exact PropertyTable.find?_erase_of_same hsame
    | false =>
      refine PropertyTable.find?_erase_eq_none (hs.held q ?_)
      by_contra hnone
      rw [Bool.not_eq_true, Option.isSome_eq_false_iff, Option.isNone_iff_eq_none] at hnone
      rw [PropertyTable.find?_insert_eq_none hnone hsame] at hq
      cases hq

/-- What is selected changes. -/
lemma Alone.reselect {g : Graph} {change : Request → Request} {items : List Fragment}
    (hgraph : s.graph.Extends g) (haliases : g.aliases = s.graph.aliases)
    (hrequests : g.requests = s.graph.requests) (hgrouped : K.keys ≠ [] ∨ items = [])
    (hchange : ∀ q, K.At g ⟨0⟩ q → K.At g ⟨0⟩ (change q))
    (hitems : List.Forall₂ (fun f i => f.At g ⟨0⟩ i.node) items
      (change (s.graph.request ⟨0⟩)).items) :
    Alone m entity K { V with items } { s with graph := g.modifyRequest ⟨0⟩ change } := by
  have hlater : g.Extends (g.modifyRequest ⟨0⟩ change) :=
    (Kept.modifyRequest (A := []) g (List.mem_singleton_self (⟨0⟩ : RequestId)) change).extension
  have hrequest : (g.modifyRequest ⟨0⟩ change).request ⟨0⟩ = change (s.graph.request ⟨0⟩) := by
    rw [request_modifyRequest_self, Graph.request, hrequests, Graph.request]
    rw [hrequests, hs.single]
    exact Nat.zero_lt_one
  have halias : (g.modifyRequest ⟨0⟩ change).aliasOf ⟨0⟩ = s.graph.aliasOf ⟨0⟩ := by
    rw [aliasOf_modifyRequest, aliasOf, haliases, aliasOf]
  refine { hs with
    computed := (hs.computed.later hgraph).later hlater
    single := ?_, sole := ?_, row := ?_, source := ?_, grouped := hgrouped, items := ?_, clauses := ?_ }
  · rw [size_requests_modifyRequest, hrequests, hs.single]
  · exact (congrArg Array.size haliases).trans hs.sole
  · rw [halias, hs.row]
  · rw [halias]
    exact hs.source
  · rw [hrequest]
    exact hitems.imp fun _ _ hi => hi.later hlater
  · rw [hrequest]
    exact (hchange _ (hs.clauses.later hgraph)).later hlater

/-- A further value is selected. -/
lemma Alone.ensures_selectMember (hkeys : K.keys ≠ []) (hn : f.At s.graph ⟨0⟩ n)
    (p : Option PropertyRef) (newElement : Bool) :
    Ensures (selectMember ⟨0⟩ n p newElement) s fun _ t =>
      s.graph.Extends t.graph ∧ Alone m entity K { V with items := V.items ++ [f] } t := by
  refine ensures_edit.2 ?_
  have hgraph := (Kept.attach [⟨0⟩] [] s.graph ⟨0⟩ n).extension
  have hpush := Kept.pushItem (A := []) s.graph (List.mem_singleton_self (⟨0⟩ : RequestId))
    { node := n, property := p, newElement }
  refine ⟨hpush.extension, ?_⟩
  refine hs.reselect hgraph rfl (requests_attach ..) (.inl hkeys) (fun q hq => { hq with }) ?_
  exact List.rel_append (hs.items.imp fun _ _ hi => hi.later hgraph) (.cons (hn.later hgraph) .nil)

lemma Alone.ensures_clearItems : Ensures (edit (·.clearItems ⟨0⟩)) s fun _ t =>
    s.graph.Extends t.graph ∧ Alone m entity K { V with items := [] } t :=
  ensures_edit.2
    ⟨(Kept.modifyRequest (A := []) s.graph (List.mem_singleton_self (⟨0⟩ : RequestId)) _).extension,
      hs.reselect (.refl _) rfl rfl (.inr rfl) (fun _ hq => { hq with }) .nil⟩

/-- What has been registered for other members than the own ones plays no part. -/
lemma Alone.register {p : PropertyRef} (hp : m.catalog.ownColumn? entity p = none) (n : NodeId) :
    Alone m entity K V { s with mapping := s.mapping.register s.graph p n } := by
  obtain ⟨table, htable⟩ := hs.mapping
  refine { hs with mapping := ?_, own := fun o ho => ?_ }
  · change ∃ table, s.mapping.register s.graph p n = _
    rw [Mapping.register]
    split
    · rw [htable]
      exact ⟨_, rfl⟩
    · exact hs.mapping
  · obtain ⟨hfree, hrest⟩ := hs.own o ho
    refine ⟨?_, hrest⟩
    change (s.mapping.register s.graph p n).equivalents.find? o = none
    rw [Mapping.register]
    split
    · exact PropertyTable.find?_insert_eq_none hfree (same_eq_false_of_own hp ho) _
    · exact hfree

end Steps

/-! ### Members of an object -/

/-- The selected entries of a key. -/
lemma ensures_selectKeys (hkeys : K.keys ≠ []) (e : Expr) {keys : GroupKeys}
    {entries : List (NodeId × Option PropertyRef)} {g : Graph} (hentries : KeysAt g keys entries) :
    ∀ {new V s}, g.Extends s.graph → Alone m entity K V s →
      Ensures (selectKeys e ⟨0⟩ new entries) s fun _ t => Alone m entity K (V.addKeys keys) t := by
  induction hentries with
  | nil =>
    intro new V s _ hs
    refine ensures_pure.2 ?_
    rw [Selection.addKeys, List.map_nil, List.append_nil]
    exact hs
  | @cons k x keys entries hx _ ih =>
    intro new V s hgs hs
    obtain ⟨n, member⟩ := x
    obtain ⟨hn, rfl⟩ := hx
    rw [selectKeys]
    refine (makes_duplicate (f := .column [] k.1) ⟨rfl, hn.later hgs⟩ e).bind fun i t ⟨ht, hi⟩ => ?_
    refine ((hs.appends ht).ensures_selectMember hkeys hi k.2 new).bind fun _ u ⟨htu, hu⟩ => ?_
    refine (ih ((hgs.trans ht.graph).trans htu) hu).mono fun _ v hv => ?_
    rw [Selection.addKeys, List.append_assoc] at hv
    exact hv

/-- A value is selected, and a member holds it. -/
lemma Alone.ensures_hold (hs : Alone m entity K V s) (hkeys : K.keys ≠ []) {p : PropertyRef}
    (hp : m.catalog.ownColumn? entity p = none) (hn : f.At s.graph ⟨0⟩ n) (newElement : Bool) :
    Ensures (setComputed p n) s fun _ t =>
      Ensures (selectMember ⟨0⟩ n (some p) newElement) t fun _ u => Alone m entity K (V.add p f) u := by
  refine (hs.ensures_setComputed hp hn).mono ?_
  rintro _ t ⟨ht, hgraph⟩
  rw [← hgraph] at hn
  exact (ht.ensures_selectMember hkeys hn (some p) newElement).mono fun _ u hu => hu.2

section Members

variable {g : Param} (fuel : Nat) (hkeys : K.keys ≠ [])
include hkeys

/-- A whole key is one value, which the member holds, or its entries. -/
lemma Alone.ensures_projectKey (hs : Alone m entity K V s) {p : PropertyRef}
    (hp : m.catalog.ownColumn? entity p = none) (newElement : Bool) (value : Expr → Fragment) :
    Ensures (projectKey (visit [] fuel) ⟨0⟩ p (.key (.param g)) (.param g) newElement) s fun _ t =>
      Alone m entity K (V.addMember value K.keys p (.key (.param g))) t := by
  rw [projectKey]
  refine (hs.ensures_groupingKeys fuel _ g).bind ?_
  rintro entries _ ⟨rfl, hentries⟩
  by_cases hsingle : ∃ column, K.keys = [(column, none)]
  · obtain ⟨column, hsingle⟩ := hsingle
    have hleaf : Expr.groupLeaf m.catalog entity K.keys g (.key (.param g)) =
        some (.column [] column) := by
      rw [hsingle]
      exact if_pos rfl
    have hadd : V.addMember value K.keys p (.key (.param g)) = V.add p (.column [] column) := by
      rw [hsingle]
      rfl
    rw [KeysAt, hsingle] at hentries
    obtain ⟨⟨n, _⟩, rest, ⟨-, rfl⟩, hrest, rfl⟩ := List.forall₂_cons_left_iff.1 hentries
    rw [List.forall₂_nil_left_iff.1 hrest, hadd]
    refine (makes_value (compiles_groupLeaf g fuel _ _ hleaf) hs).bind ?_
    rintro k t ⟨ht, hk⟩
    exact ((hs.appends ht).ensures_hold hkeys hp hk newElement).bind fun _ _ h => h
  · have hadd : V.addMember value K.keys p (.key (.param g)) = V.addKeys K.keys := by
      rw [Selection.addMember]
      exact fun column h => hsingle ⟨column, h⟩
    rw [hadd]
    split
    · obtain ⟨⟨column, _⟩, rest, ⟨-, rfl⟩, hrest, hkeys⟩ := List.forall₂_cons_right_iff.1 hentries
      rw [List.forall₂_nil_right_iff.1 hrest] at hkeys
      exact absurd ⟨column, hkeys⟩ hsingle
    · exact ensures_selectKeys hkeys _ hentries (.refl _) hs

variable {e : Expr} (he : e.isScalar (Expr.groupLeaf m.catalog entity K.keys g) = true)

section Scalar

variable (hs : Alone m entity K V s) {p : PropertyRef} (hp : m.catalog.ownColumn? entity p = none)
include he hs hp

/-- A member of a key is a value of its own. -/
lemma Alone.ensures_projectPath (hpath : e.memberPath? = none) (newElement : Bool) :
    Ensures (projectPath (visit [] fuel) ⟨0⟩ p e newElement) s fun _ t =>
      Alone m entity K (V.add p (e.inGroup m.catalog entity K.keys g)) t := by
  rw [projectPath]
  split
  · exact ensures_reject_bind
  · rw [hpath]
    refine (makes_value (compiles_group he fuel) hs).bind ?_
    rintro n t ⟨ht, hn⟩
    exact ((hs.appends ht).ensures_hold hkeys hp hn newElement).bind fun _ _ h => h

/-- A computed value is also registered. -/
lemma Alone.ensures_projectComputed (newElement : Bool) :
    Ensures (projectComputed (visit [] fuel) ⟨0⟩ p e newElement) s fun _ t =>
      Alone m entity K (V.add p (e.inGroup m.catalog entity K.keys g)) t := by
  refine (makes_value (compiles_group he fuel) hs).bind fun n t ⟨ht, hn⟩ => ?_
  refine ((hs.appends ht).ensures_hold hkeys hp hn newElement).bind fun _ _ h => ?_
  exact h.bind fun _ u hu => ensures_modify.2 (hu.register hp n)

end Scalar

end Members

mutual
/-- **A member of an object**, by the form of its value. -/
theorem ensures_projectMember (fuel : Nat) (hkeys : K.keys ≠ []) {g : Param} :
    ∀ (e : Expr) {p : PropertyRef} {V s} (newElement : Bool), Alone m entity K V s →
    e.showsMember (Expr.groupLeaf m.catalog entity K.keys g)
      (fun p => (m.catalog.ownColumn? entity p).isNone) g p = true →
    Ensures (projectMember (visit [] fuel) ⟨0⟩ p newElement e) s fun _ t =>
      Alone m entity K (V.addMember (·.inGroup m.catalog entity K.keys g) K.keys p e) t
  | .new _ members, _, _, _, _, hs, h =>
    ensures_projectMembers fuel hkeys members true hs h
  | .key e, _, _, _, newElement, hs, h => by
    cases e with
    | param q =>
      obtain ⟨hq, hp⟩ := Bool.and_eq_true_iff.1 h
      obtain rfl := beq_iff_eq.1 hq
      exact hs.ensures_projectKey fuel hkeys (Option.isNone_iff_eq_none.1 hp) newElement _
    | _ => cases h
  | .member e p, _, _, _, newElement, hs, h => by
    obtain ⟨he, hp⟩ := Bool.and_eq_true_iff.1 h
    have hpath : (Expr.member e p).memberPath? = none := by
      cases e with
      | key _ => rfl
      | _ => cases he
    exact hs.ensures_projectPath fuel hkeys he (Option.isNone_iff_eq_none.1 hp) hpath newElement
  | .const _, _, _, _, newElement, hs, h | .binary _ _ _, _, _, _, newElement, hs, h
  | .unary _ _, _, _, _, newElement, hs, h | .cond _ _ _, _, _, _, newElement, hs, h
  | .call _ _, _, _, _, newElement, hs, h => by
    simp only [Expr.showsMember, Bool.and_eq_true] at h
    obtain ⟨he, hp⟩ := h
    exact hs.ensures_projectComputed fuel hkeys he (Option.isNone_iff_eq_none.1 hp) newElement
  | .source _, _, _, _, _, _, h | .param _, _, _, _, _, _, h | .lambda _ _, _, _, _, _, _, h
  | .init _ _, _, _, _, _, _, h => by cases h

theorem ensures_projectMembers (fuel : Nat) (hkeys : K.keys ≠ []) {g : Param} :
    ∀ (members : List (PropertyRef × Expr)) {V s} (newElement : Bool), Alone m entity K V s →
    Expr.showsMembers (Expr.groupLeaf m.catalog entity K.keys g)
      (fun p => (m.catalog.ownColumn? entity p).isNone) g members = true →
    Ensures (projectMembers (visit [] fuel) ⟨0⟩ newElement members) s fun _ t =>
      Alone m entity K (V.addMembers (·.inGroup m.catalog entity K.keys g) K.keys members) t
  | [], _, _, _, hs, _ => ensures_pure.2 hs
  | (p, e) :: rest, _, _, newElement, hs, h => by
    obtain ⟨he, hrest⟩ := Bool.and_eq_true_iff.1 h
    exact (ensures_projectMember fuel hkeys e newElement hs he).bind fun _ t ht =>
      ensures_projectMembers fuel hkeys rest false ht hrest
end

/-! ### Projections -/

/-- A value that is all that is selected. -/
lemma Alone.ensures_projectSingle (hs : Alone m entity K V s) (fuel : Nat) (hkeys : K.keys ≠ [])
    {g : Param} {body : Expr} (hbody : body.isScalar (Expr.groupLeaf m.catalog entity K.keys g) = true)
    (e : Expr) : Ensures (projectSingle (visit [] fuel) e false ⟨0⟩ body) s fun _ t =>
      Alone m entity K { V with items := [body.inGroup m.catalog entity K.keys g] } t := by
  rw [projectSingle]
  dsimp only
  split
  · exact ensures_reject_bind
  · have hmade := compiles_group hbody fuel _ (hs.widen !body.type.isCollection)
    refine (made_widening _ hmade).bind ?_
    rintro _ t ⟨n, rfl, ht, hn⟩
    have ht := hs.appends ht
    have hactive : { t with active := some ⟨0⟩ } = t := by rw [← ht.active]
    rw [ensures_bind, ensures_setActive, hactive, valueOf, pure_bind, ensures_bind, ensures_edit]
    obtain ⟨hclear, hu⟩ := ensures_edit.1 ht.ensures_clearItems
    exact ensures_pure.2 (ensures_edit.1 (hu.ensures_selectMember hkeys (hn.later hclear) none true)).2

/-- **A projection of groups** shows its selection. -/
theorem Ranged.select {q : Expr} (h : Ranged m entity K {} q) (hkeys : K.keys ≠ []) {w : Showing}
    (hw : w.fits m.catalog entity K.keys = true) :
    Ranged m entity K (w.selection m.catalog entity K.keys) (w.expr q) := by
  have hproject : ∀ {V s} (shape : TypeRef), Alone m entity K V s → Ensures (do
      editRequest ⟨0⟩ ({ · with projection := some shape })
      return Meaning.query ⟨0⟩) s fun x t => x = .query ⟨0⟩ ∧ Alone m entity K V t :=
    fun shape hs => hs.ensures_editRequest id (fun _ => rfl) fun q hq => { hq with }
  rintro (_ | fuel)
  · exact ensures_reject
  change Ensures (Compile.select (visit [] fuel) _ false q [q, .lambda [w.param] w.body]) _ _
  rw [Compile.select]
  simp only [argument_one, pure_bind]
  refine h.openReceiver _ fun s hs => ?_
  refine (hs.ensures_enter _ _ w.param).bind ?_
  rintro _ t ⟨rfl, ht⟩
  have ht := hs.appends ht
  cases w with
  | object g type members =>
    refine ht.ensures_clearItems.bind fun _ u ⟨_, hu⟩ => ?_
    rw [ensures_bind, ensures_widening]
    refine (ensures_projectMembers fuel hkeys members true (hu.widen true) hw).mono fun _ v hv => ?_
    exact hproject _ (hv.widen u.widen)
  | key g member =>
    have hsingle := ht.ensures_projectSingle fuel hkeys hw (Showing.expr q (.key g member))
    cases member with
    | none => exact hsingle.bind fun _ _ hu => hproject _ hu
    | some p => exact hsingle.bind fun _ _ hu => hproject _ hu

/-! ### Members of what is shown -/

/-- A member reads a copy of what it holds. -/
lemma made_heldMember (hs : Alone m entity K V s) {p : PropertyRef}
    (hp : V.values.find? p = some f) (e : Expr) : Ensures (resolveMember e ⟨0⟩ p) s (Made s f) := by
  have hpaths := hs.held p (by rw [hp]; rfl)
  have hreal : realPath s.paths pathLimit [p] = [p] := by rw [pathLimit, realPath, hpaths]
  obtain ⟨hnone, -⟩ | ⟨f', n, hf', hn, hat⟩ := hs.computed.find? p
  · rw [hp] at hnone
    cases hnone
  · rw [hp] at hf'
    cases hf'
    rw [resolveMember, ensures_bind, ensures_active]
    intro r _
    rw [ensures_get_bind]
    dsimp only
    rw [ensures_get_bind, hreal, List.head?_cons, Option.bind_some, hn]
    exact made_of_gives (makes_duplicate hat e)

/-- The leaves over what is shown. -/
lemma compiles_heldLeaf (p : Param) (fuel : Nat) (e : Expr) (f : Fragment)
    (h : Expr.heldLeaf V.values p e = some f) : Compiles m entity K V (visit [] fuel) e f := by
  intro s hs
  unfold Expr.heldLeaf at h
  split at h
  · next q property =>
    split at h
    · cases fuel with
      | zero => exact ensures_reject
      | succ fuel =>
        change Ensures (visit [] fuel (.param q) >>= _) s _
        refine (ensures_visit_param hs fuel q).bind ?_
        rintro _ s ⟨rfl, rfl⟩
        exact made_heldMember hs h _
    · cases h
  · cases h

/-- **Scalar expressions over what is shown.** -/
theorem compiles_held {p : Param} {e : Expr} (he : e.isScalar (Expr.heldLeaf V.values p) = true)
    (fuel : Nat) : Compiles m entity K V (visit [] fuel) e
      (e.written (Expr.heldLeaf V.values p) m.catalog) :=
  compiles_visit (compiles_heldLeaf p) fuel e he

end Compile

end EntityQuery
