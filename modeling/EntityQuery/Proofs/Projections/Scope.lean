import EntityQuery.Compile.Statement
import EntityQuery.Proofs.Projections.Anchor
import EntityQuery.Proofs.Projections.Types

/-!
What expressions stand for inside an anchored request.

* `Guarded`: an outermost request is anchored, and a member of a collection type is read by a path
  that ends with such a member.
* `Inside`: a value, a row or a query is built without touching the anchored request. A row of a
  collection type is not the base of that request, because its path is not empty; so an operator over
  it never works on that request.
-/

namespace EntityQuery

open Sql

/-! ### Expressions that fit -/

namespace Expr

/-- The types of an expression fit together, under parameters that range over items. -/
def Fits (many : String → String → Bool) (e : Expr) : Prop :=
  ∃ scope, (∀ p ∈ scope, p.type.isItem = true) ∧ e.wellTyped many scope = true

/-- The types of the arguments of an operator fit together. -/
def FitsArgs (many : String → String → Bool) (m : Method) (element : TypeRef) (args : List Expr) :
    Prop :=
  ∃ scope, (∀ p ∈ scope, p.type.isItem = true) ∧ wellTypedArgs many scope m element args = true

variable {many : String → String → Bool} {m : Method} {element : TypeRef}

lemma Fits.param {p : Param} (h : (param p).Fits many) : p.type.isItem = true := by
  obtain ⟨scope, hscope, h⟩ := h
  simp only [wellTyped, Bool.or_eq_true, List.contains_iff_mem] at h
  rcases h with h | h
  · exact hscope p h
  · exact h

lemma Fits.member {target : Expr} {p : PropertyRef} (h : (member target p).Fits many) :
    target.Fits many ∧ p.type.isMember = true ∧
      (p.type.isCollection = true → many p.owner p.name = true) := by
  obtain ⟨scope, hscope, h⟩ := h
  simp only [wellTyped, Bool.and_eq_true, Bool.or_eq_true, Bool.not_eq_true'] at h
  refine ⟨⟨scope, hscope, h.1.1⟩, h.1.2, fun hcollection => ?_⟩
  rcases h.2 with h | h
  · rw [h] at hcollection
    cases hcollection
  · exact h

lemma Fits.key {target : Expr} (h : (key target).Fits many) : target.Fits many := by
  obtain ⟨scope, hscope, h⟩ := h
  exact ⟨scope, hscope, by simpa only [wellTyped] using h⟩

lemma Fits.binary {op : BinaryOperator} {l r : Expr} (h : (binary op l r).Fits many) :
    l.Fits many ∧ r.Fits many := by
  obtain ⟨scope, hscope, h⟩ := h
  simp only [wellTyped, Bool.and_eq_true] at h
  exact ⟨⟨scope, hscope, h.1⟩, ⟨scope, hscope, h.2⟩⟩

lemma Fits.unary {op : UnaryOperator} {e : Expr} (h : (unary op e).Fits many) : e.Fits many := by
  obtain ⟨scope, hscope, h⟩ := h
  exact ⟨scope, hscope, by simpa only [wellTyped] using h⟩

lemma Fits.cond {t y n : Expr} (h : (cond t y n).Fits many) :
    t.Fits many ∧ y.Fits many ∧ n.Fits many := by
  obtain ⟨scope, hscope, h⟩ := h
  simp only [wellTyped, Bool.and_eq_true] at h
  exact ⟨⟨scope, hscope, h.1.1⟩, ⟨scope, hscope, h.1.2⟩, ⟨scope, hscope, h.2⟩⟩

lemma Fits.call {arg : Expr} {rest : List Expr} (h : (call m (arg :: rest)).Fits many) :
    arg.Fits many ∧ m.takes arg.type = true ∧ FitsArgs many m arg.elementType rest := by
  obtain ⟨scope, hscope, h⟩ := h
  simp only [wellTyped, Bool.and_eq_true] at h
  exact ⟨⟨scope, hscope, h.1.1⟩, h.1.2, ⟨scope, hscope, h.2⟩⟩

/-- A member of an object is given a collection if it has a collection type. -/
lemma Fits.new {type : String} {members : List (PropertyRef × Expr)}
    (h : (new type members).Fits many) : ∀ x ∈ members, x.2.Fits many ∧
      (many x.1.owner x.1.name = true → x.2.type.isCollection = true) := by
  obtain ⟨scope, hscope, h⟩ := h
  rw [wellTyped] at h
  induction members with
  | nil => simp
  | cons x members ih =>
    obtain ⟨p, e⟩ := x
    simp only [wellTypedMembers, Bool.and_eq_true, Bool.or_eq_true, Bool.not_eq_true'] at h
    rintro y hy
    rcases List.mem_cons.1 hy with rfl | hy
    · refine ⟨⟨scope, hscope, h.1.2⟩, fun hmany => ?_⟩
      rcases h.1.1 with h | h
      · rw [h] at hmany
        cases hmany
      · exact h
    · exact ih h.2 y hy

lemma Fits.init {type : String} {bindings : List Binding} (h : (init type bindings).Fits many) :
    ∀ p e, .assign p e ∈ bindings → e.Fits many ∧
      (many p.owner p.name = true → e.type.isCollection = true) := by
  obtain ⟨scope, hscope, h⟩ := h
  rw [wellTyped] at h
  induction bindings with
  | nil => simp
  | cons b bindings ih =>
    intro p e hmem
    cases b with
    | list q es =>
      simp only [wellTypedBindings] at h
      exact ih h p e ((List.mem_cons.1 hmem).resolve_left (by simp))
    | assign q v =>
      simp only [wellTypedBindings, Bool.and_eq_true, Bool.or_eq_true, Bool.not_eq_true'] at h
      rcases List.mem_cons.1 hmem with heq | hmem
      · cases heq
        refine ⟨⟨scope, hscope, h.1.2⟩, fun hmany => ?_⟩
        rcases h.1.1 with h | h
        · rw [h] at hmany
          cases hmany
        · exact h
      · exact ih h.2 p e hmem

/-- The lambda after a receiver that ranges over items. -/
lemma FitsArgs.lambda {ps : List Param} {body : Expr} {rest : List Expr}
    (h : FitsArgs many m element (.lambda ps body :: rest)) (helement : element.isItem = true) :
    body.Fits many ∧ m.selects body.type = true := by
  obtain ⟨scope, hscope, h⟩ := h
  obtain ⟨hps, hselects, hbody⟩ := wellTyped_of_lambda h
  refine ⟨⟨ps ++ scope, fun p hp => ?_, hbody⟩, hselects⟩
  rcases List.mem_append.1 hp with hp | hp
  · rw [hps p hp]
    exact helement
  · exact hscope p hp

lemma FitsArgs.head {e : Expr} {rest : List Expr} (h : FitsArgs many m element (e :: rest)) :
    e.Fits many := by
  obtain ⟨scope, hscope, h⟩ := h
  exact ⟨scope, hscope, wellTyped_of_arg h⟩

def isKey : Expr → Bool
  | .key _ => true
  | _ => false

/-- The key of a grouping is flat. -/
lemma isFlat_key {target : Expr} (h : target.type.isFlat = true) : (key target).type.isFlat = true := by
  rw [type]
  split
  · next k e heq =>
    rw [heq] at h
    change (TypeRef.grouping k e).isItem = true at h
    rw [TypeRef.isItem_grouping, Bool.and_eq_true] at h
    exact h.1
  · exact h

end Expr

/-! ### Paths of members -/

/-- A path ends with a member of a collection type. -/
def EndsMany (many : String → String → Bool) (path : List PropertyRef) : Prop :=
  ∃ q ∈ path.getLast?, many q.owner q.name = true

/-- Members of a collection type are read by paths that end with such a member. -/
def LeadMany (many : String → String → Bool) (paths : PropertyTable (List PropertyRef)) : Prop :=
  ∀ row ∈ paths, many row.1.owner row.1.name = true → EndsMany many row.2

section Paths

variable {many : String → String → Bool} {paths : PropertyTable (List PropertyRef)}

lemma endsMany_single {p : PropertyRef} (h : many p.owner p.name = true) : EndsMany many [p] :=
  ⟨p, rfl, h⟩

lemma endsMany_realPath (hpaths : LeadMany many paths) (limit : Nat) {path : List PropertyRef}
    (h : EndsMany many path) : EndsMany many (Compile.realPath paths limit path) := by
  induction limit generalizing path with
  | zero => exact h
  | succ limit ih =>
    rcases path with _ | ⟨p, rest⟩
    · exact h
    · rw [Compile.realPath]
      cases hfind : paths.find? p with
      | none => exact h
      | some source =>
        obtain ⟨row, hrow, rfl⟩ := Option.map_eq_some_iff.1 hfind
        refine ih ?_
        rcases List.eq_nil_or_concat rest with rfl | ⟨init, q, rfl⟩
        · -- the last step is the member itself
          obtain ⟨q, hq, hmany⟩ := h
          obtain rfl : p = q := by simpa using hq
          have hsame := List.find?_some hrow
          simp only [PropertyRef.same, Bool.and_eq_true, beq_iff_eq] at hsame
          rw [← hsame.1, ← hsame.2] at hmany
          rw [List.append_nil]
          exact hpaths row (List.mem_of_find?_eq_some hrow) hmany
        · obtain ⟨q', hq, hmany⟩ := h
          rw [List.concat_eq_append] at hq ⊢
          rw [← List.cons_append, List.getLast?_concat] at hq
          refine ⟨q', ?_, hmany⟩
          rw [← List.append_assoc, List.getLast?_concat]
          exact hq

/-- The path of a member of a collection type. -/
lemma endsMany_memberPath? {e : Expr} (he : e.Fits many) (hcollection : e.type.isCollection = true)
    {path : List PropertyRef} (hpath : e.memberPath? = some path) : EndsMany many path := by
  cases e with
  | param p =>
    have hitem := TypeRef.not_isSequence_of_isItem he.param
    rw [TypeRef.isSequence, Bool.or_eq_false_iff] at hitem
    exact absurd hcollection (by rw [Expr.type, hitem.2]; simp)
  | member target p =>
    obtain ⟨init, -, rfl⟩ := Option.map_eq_some_iff.1 hpath
    exact ⟨p, by simp, he.member.2.2 hcollection⟩
  | _ => cases hpath

end Paths

namespace Compile

open Graph

/-- A request is anchored and another one is active, or the same. -/
structure Guarded (many : String → String → Bool) (A : Anchor) (o : RequestId) (s : CompileState) :
    Prop where
  anchored : s.graph.Anchored A
  active : s.active = some o
  paths : LeadMany many s.paths

variable {many : String → String → Bool} {A : Anchor} {o r : RequestId} {s t : CompileState}

namespace Guarded

variable (h : Guarded many A o s)
include h

/-! ### Steps -/

lemma build {k : Graph} (hk : k.Anchored A) : Guarded many A o { s with graph := k } :=
  ⟨hk, h.active, h.paths⟩

lemma widen (w : Bool) : Guarded many A o { s with widen := w } := ⟨h.anchored, h.active, h.paths⟩

lemma activate (r : RequestId) : Guarded many A r { s with active := some r } :=
  ⟨h.anchored, rfl, h.paths⟩

lemma ensures_add (x : Node) : Ensures (add x) s fun _ t => Guarded many A o t :=
  Compile.ensures_add.2 (h.build (h.anchored.add x))

lemma ensures_edit {f : Graph → Graph} (hf : (f s.graph).Anchored A) :
    Ensures (edit f) s fun _ t => Guarded many A o t := Compile.ensures_edit.2 (h.build hf)

/-- A change to clauses of a request. -/
lemma ensures_clauses (r : RequestId) {f : Request → Request}
    (hf : ∀ q, (f q).joins = q.joins ∧ (f q).base = q.base ∧ (f q).parent = q.parent ∧
      (f q).projection = q.projection) :
    Ensures (editRequest r f) s fun _ t => Guarded many A o t :=
  h.ensures_edit (h.anchored.clauses r hf)

/-- A change to another request that keeps its joins. -/
lemma ensures_other {r : RequestId} (hr : r ≠ A.request) {f : Request → Request}
    (hf : ∀ q, (f q).joins = q.joins) : Ensures (editRequest r f) s fun _ t => Guarded many A o t :=
  h.ensures_edit (h.anchored.other hr hf)

/-- A request shows another type. -/
lemma ensures_project (r : RequestId) (type : TypeRef) {f : Request → Request}
    (hf : ∀ q, (f q).joins = q.joins ∧ (f q).base = q.base ∧ (f q).parent = q.parent ∧
      (f q).projection = some type) :
    Ensures (editRequest r f) s fun _ t => Guarded many (A.showing r type) o t :=
  ensures_editRequest.2 ⟨h.anchored.project r type hf, h.active, h.paths⟩

lemma ensures_duplicate (e : Expr) (n : NodeId) :
    Ensures (duplicate e n) s fun _ t => Guarded many A o t := by
  rw [duplicate, ensures_bind, ensures_build]
  rcases hrun : (Build.duplicate n).run s.graph with ⟨_ | m, k⟩
  · exact ensures_reject
  · exact ensures_pure.2 (h.build (h.anchored.duplicate hrun))

lemma ensures_valueOf (m : Meaning) : Ensures (valueOf m) s fun _ t => Guarded many A o t := by
  cases m with
  | value n => exact ensures_pure.2 h
  | row a => exact h.ensures_add _
  | query r => exact h.ensures_add _

lemma ensures_condition (n : NodeId) : Ensures (condition n) s fun _ t => Guarded many A o t := by
  rw [condition, ensures_bind, ensures_graph]
  split
  · exact (h.ensures_add _).bind fun truth t ht => ht.ensures_add _
  · exact ensures_pure.2 h

lemma ensures_leave (r : RequestId) :
    Ensures (leave r) s fun _ t => ∃ o', Guarded many A o' t := by
  rw [Compile.ensures_leave]
  split
  · exact ⟨_, h.activate _⟩
  · exact ⟨o, h⟩

lemma ensures_within {α : Type} {x : Compile α} (r : RequestId)
    (hx : ∀ t, Guarded many A r t → Ensures x t fun _ u => Guarded many A r u) :
    Ensures (within r x) s fun _ t => Guarded many A o t := by
  rw [Compile.ensures_within]
  exact (hx _ (h.activate r)).mono fun _ t ht => ⟨ht.anchored, h.active, ht.paths⟩

/-! ### Projected members -/

/-- A member of a collection type is remembered by a path that ends with one. -/
lemma ensures_setPath {p : PropertyRef} {path : List PropertyRef}
    (hpath : many p.owner p.name = true → EndsMany many path) :
    Ensures (setPath p path) s fun _ t => Guarded many A o t := by
  have hrecord : Ensures (setPath.record p path) s fun _ t => Guarded many A o t := by
    rw [setPath.record, ensures_modify]
    refine ⟨h.anchored, h.active, fun row hrow => ?_⟩
    rcases List.mem_cons.1 hrow with rfl | hrow
    · exact hpath
    · exact h.paths row (List.mem_of_mem_filter hrow)
  unfold setPath
  split
  · split
    · exact ensures_pure.2 h
    · exact hrecord
  · exact hrecord

lemma ensures_setComputed (p : PropertyRef) (n : NodeId) :
    Ensures (setComputed p n) s fun _ t => Guarded many A o t := by
  rw [setComputed, ensures_modify]
  exact ⟨h.anchored, h.active, fun row hrow => h.paths row (List.mem_of_mem_filter hrow)⟩

end Guarded

/-! ### Members -/

/-- A meaning that is no base of the anchored request. -/
def Brought (A : Anchor) : Meaning → Prop
  | .value _ => True
  | .row a => A.base ≠ some a
  | .query _ => False

namespace Guarded

variable (h : Guarded many A o s)
include h

lemma ensures_resolveStep (r : RequestId) (a : AliasId) (p : PropertyRef) :
    Ensures (resolveStep r a p) s fun m t => Guarded many A o t ∧ Brought A m := by
  rw [Compile.ensures_resolveStep]
  refine (Mapping.brings_resolve a p h.anchored).mono fun x k ⟨hk, hx⟩ => ⟨h.build hk, ?_⟩
  cases x with
  | value n => trivial
  | row b => exact hx b rfl

lemma ensures_follow (e : Expr) (r : RequestId) (path : List PropertyRef) {m : Meaning}
    (hm : Brought A m) :
    Ensures (follow e r m path) s fun m' t => Guarded many A o t ∧ Brought A m' := by
  induction path generalizing s m with
  | nil =>
    have hfollow : follow e r m [] = pure m := by cases m <;> rfl
    rw [hfollow]
    exact ensures_pure.2 ⟨h, hm⟩
  | cons p path ih =>
    cases m with
    | row a => exact (h.ensures_resolveStep r a p).bind fun m' t ⟨ht, hm'⟩ => ih ht hm'
    | value n => exact ensures_reject
    | query q => exact hm.elim

/-- What a member stands for is brought in by a join if the member has a collection type. -/
lemma ensures_resolveMember (e : Expr) (a : AliasId) (p : PropertyRef) :
    Ensures (resolveMember e a p) s fun m t => Guarded many A o t ∧ (∀ q, m ≠ .query q) ∧
      (many p.owner p.name = true → Brought A m) := by
  rw [resolveMember, ensures_bind, ensures_active]
  intro r hr
  rw [ensures_get_bind]
  dsimp only
  rw [ensures_get_bind]
  have hpath : many p.owner p.name = true → realPath s.paths pathLimit [p] ≠ [] := by
    intro hmany hnil
    obtain ⟨q, hq, -⟩ := endsMany_realPath h.paths pathLimit (endsMany_single hmany)
    rw [hnil] at hq
    cases hq
  have hcopy : ∀ n, Ensures (Meaning.value <$> duplicate e n) s fun m t => Guarded many A o t ∧
      (∀ q, m ≠ .query q) ∧ (many p.owner p.name = true → Brought A m) := by
    intro n
    refine ensures_map.2 ((h.ensures_duplicate e n).mono fun m t ht => ?_)
    exact ⟨ht, by simp, fun _ => trivial⟩
  rcases hreal : realPath s.paths pathLimit [p] with _ | ⟨q, rest⟩
  · exact ensures_pure.2 ⟨h, by simp, fun hmany => absurd hreal (hpath hmany)⟩
  · split
    · exact ensures_reject
    · exact hcopy _
    · refine (h.ensures_resolveStep r a q).bind fun m t ht => ?_
      obtain ⟨ht, hm⟩ := ht
      refine (ht.ensures_follow e r rest hm).mono fun m' u hu => ⟨hu.1, ?_, fun _ => hu.2⟩
      rintro q rfl
      exact hu.2

end Guarded

/-! ### Meanings -/

/-- What an expression stands for inside an anchored request: the request is left alone, a row of a
collection type is not its base, and sequences range over items. -/
def Inside (many : String → String → Bool) (A : Anchor) (e : Expr) (o : RequestId)
    (t : CompileState) : Meaning → Prop
  | .value _ => (∃ o', Guarded many A o' t) ∧ (e.isKey = true → e.type.isFlat = true)
  | .row a => Guarded many A o t ∧ e.type.isFlat = true ∧ (e.type.isSequence = true → A.base ≠ some a)
  | .query r => (∃ o', Guarded many A o' t) ∧ r ≠ A.request ∧ e.isKey = false ∧
      (e.type.isSequence = true → e.elementType.isItem = true)

/-- A value, built inside an anchored request. -/
def Valued (many : String → String → Bool) (A : Anchor) (t : CompileState) : Meaning → Prop
  | .value _ => ∃ o', Guarded many A o' t
  | _ => False

lemma Valued.inside {e : Expr} {m : Meaning} (h : Valued many A t m) (he : e.isKey = false) :
    Inside many A e o t m := by
  cases m with
  | value n => exact ⟨h, fun hkey => by rw [he] at hkey; cases hkey⟩
  | row a => exact h.elim
  | query r => exact h.elim

lemma ensures_valued {x : Compile NodeId} (hx : Ensures x s fun _ t => Guarded many A o t) :
    Ensures (Meaning.value <$> x) s fun m t => Valued many A t m :=
  ensures_map.2 (hx.mono fun _ _ ht => ⟨o, ht⟩)

/-- A rule under which expressions leave every anchored request alone. -/
def Shelters (many : String → String → Bool) (visit : Visit) : Prop :=
  ∀ A e o s, e.Fits many → Guarded many A o s → Ensures (visit e) s fun m t => Inside many A e o t m

lemma Inside.guarded {e : Expr} {m : Meaning} (h : Inside many A e o t m) :
    ∃ o', Guarded many A o' t := by
  cases m with
  | value n => exact h.1
  | row a => exact ⟨o, h.1⟩
  | query r => exact h.1

lemma Inside.widen {e : Expr} {m : Meaning} (h : Inside many A e o t m) (w : Bool) :
    Inside many A e o { t with widen := w } m := by
  cases m with
  | value n => exact ⟨h.1.imp fun _ hg => hg.widen w, h.2⟩
  | row a => exact ⟨h.1.widen w, h.2⟩
  | query r => exact ⟨h.1.imp fun _ hg => hg.widen w, h.2⟩

section Visit

variable {visit : Visit} (hv : Shelters many visit) (h : Guarded many A o s)
include hv h

/-- A value leaves the active request as it was. -/
lemma guarded_value {e : Expr} (he : e.Fits many) :
    Ensures (value visit e) s fun _ t => Guarded many A o t := by
  rw [value, ensures_get_bind]
  refine (hv A e o s he h).bind fun m t hm => ?_
  obtain ⟨o', ht⟩ := hm.guarded
  have hactive : s.active.isSome = true := by rw [h.active]; rfl
  simp only [hactive, if_true]
  rw [ensures_bind, ensures_modify]
  exact Guarded.ensures_valueOf (s := { t with active := s.active })
    ⟨ht.anchored, h.active, ht.paths⟩ m

lemma guarded_rowValue {e : Expr} (he : e.Fits many) :
    Ensures (rowValue visit e) s fun _ t => Guarded many A o t ∧ e.type.isFlat = true := by
  refine (hv A e o s he h).bind fun m t hm => ?_
  cases m with
  | row a => exact ensures_pure.2 ⟨hm.1, hm.2.1⟩
  | value n => exact ensures_reject
  | query r => exact ensures_reject

/-- The entries of a grouping. -/
lemma guarded_groupingKeys {grouping : Expr} (hgrouping : grouping.Fits many) (e : Expr) :
    Ensures (groupingKeys visit e grouping) s fun _ t =>
      Guarded many A o t ∧ grouping.type.isFlat = true := by
  refine (guarded_rowValue hv h hgrouping).bind fun a t ⟨ht, hflat⟩ => ?_
  rw [ensures_bind, ensures_active]
  intro r _
  rw [ensures_bind, ensures_graph]
  dsimp only
  split
  · exact ensures_pure.2 ⟨ht, hflat⟩
  · exact ensures_reject

end Visit

/-! ### Rows -/

section Rows

variable (h : Guarded many A o s)
include h

/-- A collection moves into a new request. -/
lemma guarded_hoist (e : Expr) (a : AliasId) :
    Ensures (hoist e a) s fun q t => Guarded many A o t ∧ q ≠ A.request := by
  intro q t hrun
  obtain ⟨outer, first, -, hfirst, rfl, hrest⟩ := runs_hoist.1 hrun
  have hnew := h.anchored.ne_new
  refine ⟨?_, hnew⟩
  have hdrop := h.anchored.dropJoin outer a
  cases hvia : (s.graph.aliasOf a).via? with
  | none =>
    rw [hvia] at hrest
    rw [hrest]
    exact h.build ((hdrop.openRequest outer a).andFilter _ _)
  | some l =>
    rw [hvia] at hrest
    obtain ⟨last, hlast, hrest⟩ := hrest
    rw [hrest]
    have hmem : last ∈ ((s.graph.dropJoin outer a).request outer).joins :=
      List.mem_of_find?_eq_some hlast
    have hopen := (hdrop.dropJoin outer l).openRequest outer a
    refine h.build ((hopen.pushJoin _ ?_).andFilter _ _)
    exact hdrop.apart outer last hmem

/-- A lambda is entered by binding its parameter. -/
lemma guarded_enter {m : Method} {element : TypeRef} {f : Expr} {rest : List Expr}
    (hf : Expr.FitsArgs many m element (f :: rest)) (helement : element.isItem = true) (e : Expr)
    (r : RequestId) :
    Ensures (enter e r f) s fun body t => Guarded many A o t ∧ body.Fits many ∧
      m.selects body.type = true ∧ Expr.selectorType? (f :: rest) = some body.type := by
  unfold enter
  split
  · next ps body =>
    split
    · next p _ =>
      obtain ⟨hbody, hselects⟩ := hf.lambda helement
      rw [rowOf, bind_assoc, ensures_bind, ensures_graph]
      dsimp only
      split
      · next a _ =>
        rw [pure_bind, ensures_bind, ensures_edit, ensures_pure]
        exact ⟨h.build (h.anchored.bind a p.id), hbody, hselects, rfl⟩
      · exact ensures_reject_bind
    · exact ensures_reject
  · exact ensures_reject

end Rows

/-- The argument after the receiver. -/
lemma ensures_second (e arg : Expr) (rest : List Expr) :
    Ensures (argument e (arg :: rest) 1) s fun f t => (∃ tail, rest = f :: tail) ∧ t = s := by
  cases rest with
  | nil => exact ensures_reject
  | cons f tail => exact ensures_pure.2 ⟨⟨tail, rfl⟩, rfl⟩

section Receiver

variable {visit : Visit} (hv : Shelters many visit) (h : Guarded many A o s)
include hv h

/-- An operator inside an anchored request works on another one. -/
theorem guarded_receiver {arg : Expr} (harg : arg.Fits many) (hsequence : arg.type.isSequence = true)
    (e : Expr) :
    Ensures (receiver visit e arg) s fun r t => r ≠ A.request ∧ (∃ o', Guarded many A o' t) ∧
      arg.elementType.isItem = true := by
  refine (hv A arg o s harg h).bind fun m t hm => ?_
  cases m with
  | query r => exact ensures_pure.2 ⟨hm.2.1, hm.1, hm.2.2.2 hsequence⟩
  | row a =>
    obtain ⟨ht, hflat, hbase⟩ := hm
    have hitem := TypeRef.isItem_elementOrSelf hflat hsequence
    rw [ensures_bind, ensures_active]
    intro q _
    rw [ensures_bind, ensures_graph]
    split
    · next q' hq =>
      exact ensures_pure.2 ⟨ht.anchored.requestOver?_ne (hbase hsequence) hq, ⟨o, ht⟩, hitem⟩
    · exact (guarded_hoist ht e a).mono fun q' u ⟨hu, hq'⟩ => ⟨hq', ⟨o, hu⟩, hitem⟩
  | value n => exact ensures_reject

end Receiver

end Compile

end EntityQuery
