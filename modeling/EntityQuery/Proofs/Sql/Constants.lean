import EntityQuery.Proofs.Sql.Marks

/-!
The values that a statement binds.

* `constants`: the constants below a request that are not null, from left to right and clause by
  clause. Nothing in it depends on a dialect.
* `params_writeRequest?`: a request from which only selects and inserts can be reached binds its
  constants, in every dialect.
* `params_askedValue`: a constant that is tested for null is bound like any other, and the joins of
  a query without a base bind nothing.
-/

namespace EntityQuery.Sql

/-! ### The parts that are written -/

/-- The meaning of a part, given those of nodes and requests. -/
def Part.read {α : Type} (node : NodeId → α) (request : RequestId → α) : Part → α
  | .node n => node n
  | .request s => request s

def Node.isConst : Node → Bool
  | .const _ => true
  | _ => false

/-- The operands that are written: those of a test in an empty list are not. -/
def Node.operands : Node → List NodeId
  | .isIn _ [] => []
  | n => n.children

namespace Graph

/-- The part of a source that its text shows: the request of a derived table. -/
def sourceParts (g : Graph) (a : AliasId) : List Part :=
  match (g.aliasOf a).origin with
  | .table _ => []
  | .request s => [.request s]

/-- The parts of a join: its source and its condition. -/
def joinParts (g : Graph) (j : Join) : List Part := g.sourceParts j.source ++ [.node j.condition]

/-- The parts of a query behind its values, clause by clause. A query without a base has no joins. -/
def clauseParts (g : Graph) (q : Request) : List Part :=
  (q.base.toList.flatMap fun base => g.sourceParts base ++ q.joins.flatMap g.joinParts) ++
    (q.filter.toList ++ q.groups ++ q.having.toList ++ q.orders.map Order.node).map .node

/-- The parts of a select or an insert, clause by clause. -/
def parts (g : Graph) (q : Request) : List Part :=
  match q.kind, q.target <|> q.base with
  | .select, _ => q.items.map (fun i => .node i.node) ++ g.clauseParts q
  | .insertSelect, some _ => q.assignments.map (fun a => .node a.value) ++ g.clauseParts q
  | _, _ => []

/-! ### Constants -/

/-- The constants that are not null, given the operands of nodes and the parts of requests that
count. -/
def constantsIn (operands : Node → List NodeId) (parts : RequestId → List Part) :
    Reading (List Value) (List Value) where
  node value query n :=
    match n with
    | .const v => if v.isNull then [] else [v]
    | .sub r => query r
    | n => (operands n).flatMap value
  request value query r := (parts r).flatMap (Part.read value query)
  endless := []
  again := []

/-- Collecting constants as a reading of a graph. -/
def collecting (g : Graph) : Reading (List Value) (List Value) :=
  constantsIn Node.operands fun r => g.parts (g.request r)

/-- The constants below a request that are not null, clause by clause. -/
def constants (g : Graph) (r : RequestId) : List Value := g.readRequest g.collecting r

/-- A request from which only selects and inserts can be reached. -/
def Uniform (g : Graph) (r : RequestId) : Prop :=
  ∀ s, Relation.ReflTransGen g.Nests r s →
    (g.request s).kind = .select ∨ (g.request s).kind = .insertSelect

/-- A value in which only selects and inserts are nested. -/
def UniformValue (g : Graph) (n : NodeId) : Prop :=
  ∀ m s, g.Below n m → g.node m = .sub s → g.Uniform s

section Uniform

variable {g : Graph} {r s : RequestId} {n c : NodeId}

lemma Uniform.nested (h : g.Uniform r) (hs : g.Nests r s) : g.Uniform s :=
  fun t ht => h t (.head hs ht)

lemma Uniform.clause (h : g.Uniform r) (hn : n ∈ (g.request r).clauseNodes) : g.UniformValue n :=
  fun m _ hm hs => h.nested (.inl ⟨n, hn, m, hm, hs⟩)

lemma UniformValue.child (h : g.UniformValue n) (hc : c ∈ (g.node n).children) :
    g.UniformValue c := fun m s hm hs => h m s (.head hc hm) hs

end Uniform

end Graph

/-! ### Bound values of pieces -/

namespace Piece

variable (ps qs : List Piece)

@[simp] lemma params_nil : params [] = [] := rfl

@[simp] lemma params_append : params (ps ++ qs) = params ps ++ params qs := List.filterMap_append

@[simp] lemma params_text (s : String) : params (.text s :: ps) = params ps := rfl

@[simp] lemma params_name (s : String) : params (.name s :: ps) = params ps := rfl

@[simp] lemma params_param (v : Value) : params (.param v :: ps) = v :: params ps := rfl

@[simp] lemma params_typed (v : Value) : params (.typed v :: ps) = v :: params ps := rfl

@[simp] lemma params_qualified (source column : String) : params (qualified source column) = [] := rfl

@[simp] lemma params_flatMap {α : Type} (as : List α) (f : α → List Piece) :
    params (as.flatMap f) = as.flatMap fun a => params (f a) := List.filterMap_flatMap

@[simp] lemma params_commas : ∀ pss : List (List Piece), params (commas pss) = pss.flatMap params
  | [] => rfl
  | [ps] => (List.append_nil _).symm
  | ps :: qs :: rest => by
    have hrest := params_commas (qs :: rest)
    change params (ps ++ .text ", " :: commas (qs :: rest)) = _
    rw [params_append, params_text, hrest]
    rfl

end Piece

namespace Writer

open Piece (params commas)

variable {w : Writer} {value : NodeId → List Value} {query : RequestId → List Value}

/-- The pieces of a value bind the given values; a constant is written as itself. -/
structure Binds (w : Writer) (value : NodeId → List Value) (n : NodeId) : Prop where
  values : params (w.value n) = value n
  const : ∀ v, w.graph.node n = .const v → w.value n = const v

/-! ### Values -/

@[simp] lemma params_column (source : Alias) (name : String) : params (column source name) = [] := by
  unfold column
  split <;> rfl

@[simp] lemma params_row (source : Alias) : params (row source) = [] := by
  unfold row
  split <;> rfl

lemma params_const (v : Value) : params (const v) = if v.isNull then [] else [v] := by
  unfold const
  split <;> rfl

/-- The null constant binds nothing. -/
lemma Binds.of_isNull {n : NodeId} (h : w.Binds value n) (hn : (w.graph.node n).isNull = true) :
    value n = [] := by
  cases hnode : w.graph.node n with
  | const v =>
    rw [hnode] at hn
    rw [← h.values, h.const v hnode, params_const]
    exact if_pos hn
  | _ => simp [hnode, Node.isNull] at hn

/-- A type that is stated makes no difference to the value. -/
lemma Binds.typed {n : NodeId} (h : w.Binds value n) : params (w.typed n) = value n := by
  unfold Writer.typed
  split
  · next v hv =>
    split
    · exact h.values
    · next hnull => rw [← h.values, h.const v hv, params_const, if_neg hnull, Piece.params_typed,
        Piece.params_nil]
  · exact h.values

lemma params_unary (op : UnaryOp) {operand : Option NodeId}
    (h : ∀ c ∈ operand, w.Binds value c) :
    params (w.unary op operand) = operand.toList.flatMap value := by
  cases operand with
  | none => cases op <;> rfl
  | some c => cases op <;> simp [unary, (h c rfl).values]

lemma params_binary (op : BinaryOp) {l r : NodeId} (hl : w.Binds value l) (hr : w.Binds value r) :
    params (w.binary op l r) = value l ++ value r := by
  unfold binary
  split
  · next htest =>
    -- the side that is not written is the null constant, which binds nothing
    by_cases hnull : (w.graph.node l).isNull = true
    · simp [hnull, hr.values, hl.of_isNull hnull]
    · have hright : (w.graph.node r).isNull = true := by
        simp only [isNullTest, hnull, Bool.and_eq_true, Bool.false_or] at htest
        exact htest.2
      simp [hnull, hl.values, hr.of_isNull hright]
  · split <;> simp [hl.values, hr.values, hl.typed, hr.typed]

/-- **A node binds what its operands bind.** -/
theorem params_node {n : Node} (parts : RequestId → List Part)
    (hv : ∀ c ∈ n.children, w.Binds value c) (hq : ∀ r, n = .sub r → params (w.query r) = query r) :
    params (w.node n) = (Graph.constantsIn Node.operands parts).node value query n := by
  cases n with
  | column a name => exact params_column _ _
  | row a => exact params_row _
  | const v => exact params_const v
  | unary op operand => exact params_unary op fun c hc => hv c (by simpa [Node.children] using hc)
  | binary op l r =>
    have hbinary := params_binary op (hv l (by simp [Node.children])) (hv r (by simp [Node.children]))
    simpa [node, Graph.constantsIn, Node.operands, Node.children] using hbinary
  | isIn e vs =>
    cases vs with
    | nil => rfl
    | cons v vs =>
      have hoperand := (hv e (by simp [Node.children])).values
      have hvalues : ((v :: vs).map w.value).flatMap params = (v :: vs).flatMap value := by
        rw [List.flatMap_map]
        exact List.flatMap_congr fun c hc => (hv c (List.mem_cons_of_mem _ hc)).values
      simp [node, Graph.constantsIn, Node.operands, Node.children, hoperand, ← hvalues]
  | cond t y n =>
    have htest := (hv t (by simp [Node.children])).values
    have hyes := (hv y (by simp [Node.children])).typed
    have hno := (hv n (by simp [Node.children])).typed
    simp [node, Graph.constantsIn, Node.operands, Node.children, htest, hyes, hno]
  | sub r => simp [node, Graph.constantsIn, hq r rfl]

/-! ### Clauses -/

lemma params_source {a : AliasId}
    (h : ∀ s, (w.graph.aliasOf a).origin = .request s → params (w.query s) = query s) :
    params (w.source a) = (w.graph.sourceParts a).flatMap (Part.read value query) := by
  cases horigin : (w.graph.aliasOf a).origin with
  | table name => simp [source, Graph.sourceParts, horigin]
  | request s => simp [source, Graph.sourceParts, horigin, h s horigin, Part.read]

lemma params_after (keyword : String) {n : Option NodeId} (h : ∀ c ∈ n, w.Binds value c) :
    params (w.after keyword n) = n.toList.flatMap value := by
  cases n with
  | none => rfl
  | some c => simp [after, (h c rfl).values]

@[simp] lemma params_afterAll (keyword : String) (pss : List (List Piece)) :
    params (afterAll keyword pss) = pss.flatMap params := by
  unfold afterAll
  split
  · next h => simp [List.isEmpty_iff.1 h]
  · simp

section Clauses

variable {q : Request} (hv : ∀ n ∈ q.clauseNodes, w.Binds value n)
  (hs : ∀ a ∈ q.origins, params (w.source a) =
    (w.graph.sourceParts a).flatMap (Part.read value query))

include hv

lemma params_selection : params (w.selection q) = q.items.flatMap fun i => value i.node := by
  unfold selection
  split
  · next h => simp [List.isEmpty_iff.1 h]
  · rw [Piece.params_commas, List.flatMap_map]
    refine List.flatMap_congr fun i hi => ?_
    have hnode := (hv _ (Request.mem_clauseNodes.2 (.inr (.inl ⟨i, hi, rfl⟩)))).typed
    cases i.label <;> simp [hnode]

lemma params_assigned :
    params (commas (q.assignments.map fun a => w.typed a.value)) =
      q.assignments.flatMap fun a => value a.value := by
  rw [Piece.params_commas, List.flatMap_map]
  refine List.flatMap_congr fun a ha => (hv _ (Request.mem_clauseNodes.2 ?_)).typed
  exact .inr (.inr (.inr (.inr (.inr (.inr ⟨a, ha, .inr rfl⟩)))))

lemma params_orderClause :
    params (w.orderClause q) = q.orders.flatMap fun o => value o.node := by
  rw [orderClause, params_afterAll, List.flatMap_map]
  refine List.flatMap_congr fun o ho => ?_
  have hnode := (hv _ (Request.mem_clauseNodes.2
    (.inr (.inr (.inr (.inr (.inr (.inl ⟨o, ho, rfl⟩)))))))).values
  cases o.ascending <;> simp [hnode]

lemma params_restrictions (query : RequestId → List Value) : params (w.restrictions q) =
    ((q.filter.toList ++ q.groups ++ q.having.toList ++ q.orders.map Order.node).map
      Part.node).flatMap (Part.read value query) := by
  have hfilter : params (w.whereClause q) = q.filter.toList.flatMap value :=
    params_after " WHERE " fun c hc => hv c (Request.mem_clauseNodes.2 (.inr (.inr (.inl hc))))
  have hgroups : (q.groups.map w.value).flatMap params = q.groups.flatMap value := by
    rw [List.flatMap_map]
    exact List.flatMap_congr fun n hn => (hv n (Request.mem_clauseNodes.2
      (.inr (.inr (.inr (.inr (.inl hn))))))).values
  have hhaving : params (w.after " HAVING " q.having) = q.having.toList.flatMap value :=
    params_after " HAVING " fun c hc =>
      hv c (Request.mem_clauseNodes.2 (.inr (.inr (.inr (.inl hc)))))
  have hparts : ∀ ns : List NodeId,
      (ns.map Part.node).flatMap (Part.read value query) = ns.flatMap value := fun ns =>
    List.flatMap_map ..
  simp only [restrictions, Piece.params_append, hfilter, params_afterAll, hgroups, hhaving,
    params_orderClause hv, hparts, List.flatMap_append, List.flatMap_map]

include hs

lemma params_joins :
    params (w.joins q) = (q.joins.flatMap w.graph.joinParts).flatMap (Part.read value query) := by
  rw [joins, Piece.params_flatMap, List.flatMap_assoc]
  refine List.flatMap_congr fun j hj => ?_
  have hsource := hs j.source (Request.mem_origins.2 (.inr (.inl ⟨j, hj, rfl⟩)))
  have hcondition := (hv _ (Request.mem_clauseNodes.2 (.inl ⟨j, hj, rfl⟩))).values
  simp [hsource, hcondition, Graph.joinParts, Part.read]

lemma params_fromClause : params (w.fromClause q) =
    (q.base.toList.flatMap fun base => w.graph.sourceParts base ++
      q.joins.flatMap w.graph.joinParts).flatMap (Part.read value query) := by
  cases hbase : q.base with
  | none => cases hd : w.dialect <;> simp [fromClause, hbase, hd, Dialect.dummyTable]
  | some base =>
    have hsource := hs base (Request.mem_origins.2 (.inl hbase))
    simp [fromClause, hbase, hsource, params_joins hv hs]

lemma params_select (values : List Piece) : params (w.select q values) =
    params values ++ (w.graph.clauseParts q).flatMap (Part.read value query) := by
  have htop : params ((w.dialect.topClause q.skip q.take).toList.map fun t => .text (t ++ " ")) = [] := by
    cases w.dialect.topClause q.skip q.take <;> rfl
  have hdistinct : params (if q.distinct then [.text "DISTINCT "] else []) = [] := by
    split <;> rfl
  rw [Graph.clauseParts, List.flatMap_append, ← params_fromClause hv hs,
    ← params_restrictions hv query]
  simp only [select, Piece.params_append, Piece.params_text, Piece.params_nil, hdistinct, htop,
    List.cons_append, List.append_assoc, List.nil_append, List.append_nil]

lemma params_insert (target : AliasId) : params (w.insert q target) =
    (q.assignments.flatMap fun a => value a.value) ++
      (w.graph.clauseParts q).flatMap (Part.read value query) := by
  have hnames : params (commas (q.assignments.map w.assignedName)) = [] := by
    rw [Piece.params_commas, List.flatMap_map, List.flatMap_eq_nil_iff]
    intro a _
    unfold assignedName
    split <;> rfl
  rw [← params_assigned hv, ← params_select hv hs, insert]
  cases (w.graph.aliasOf target).origin <;> simp [hnames]

/-- **A select or an insert binds what its parts bind.** -/
theorem params_request (hkind : q.kind = .select ∨ q.kind = .insertSelect) :
    params (w.request q) = (w.graph.parts q).flatMap (Part.read value query) := by
  rcases hkind with hkind | hkind
  · simp only [request, Graph.parts, hkind, params_select hv hs, params_selection hv,
      List.flatMap_append, List.flatMap_map]
    rfl
  · cases htarget : q.target <|> q.base with
    | none => simp [request, Graph.parts, hkind, htarget]
    | some target =>
      simp only [request, Graph.parts, hkind, htarget, params_insert hv hs, List.flatMap_append,
        List.flatMap_map]
      rfl

end Clauses

end Writer

namespace Graph

variable {g : Graph}

/-! ### Two readings of one graph -/

/-- What the rules of two readings keep between them holds of every part that is read with enough
fuel. -/
theorem readWithin_induction₂ {α β α' β' : Type} {f : Reading α β} {k : Reading α' β'}
    {μ : Part → Nat} {P : NodeId → α → α' → Prop} {Q : RequestId → β → β' → Prop}
    (hμ : ∀ {x y : Part}, g.Holds x y → μ y < μ x)
    (hnode : ∀ part part' query query' n, (∀ c ∈ (g.node n).children, P c (part c) (part' c)) →
      (∀ r, g.node n = .sub r → Q r (query r) (query' r)) →
      P n (f.node part query (g.node n)) (k.node part' query' (g.node n)))
    (hrequest : ∀ part part' query query' r,
      (∀ n ∈ (g.request r).clauseNodes, P n (part n) (part' n)) →
      (∀ a ∈ (g.request r).origins, ∀ s, (g.aliasOf a).origin = .request s →
        Q s (query s) (query' s)) →
      Q r (f.request part query r) (k.request part' query' r)) :
    ∀ (fuel : Nat) (above : List RequestId),
      (∀ n, Enough μ (.node n) fuel above →
        P n (g.readNodeWithin f fuel above n) (g.readNodeWithin k fuel above n)) ∧
      ∀ r, Enough μ (.request r) fuel above →
        Q r (g.readRequestWithin f fuel above r) (g.readRequestWithin k fuel above r) := by
  intro fuel
  induction fuel with
  | zero =>
    intro above
    exact ⟨fun n h => absurd h.1 (Nat.not_lt_zero _), fun r h => absurd h.1 (Nat.not_lt_zero _)⟩
  | succ fuel ih =>
    refine fun above => ⟨fun n h => ?_, fun r h => ?_⟩
    · rw [readNodeWithin, readNodeWithin]
      exact hnode _ _ _ _ n (fun c hc => (ih above).1 c (h.part (hμ (.child hc))))
        fun r hr => (ih above).2 r (h.part (hμ (.sub hr)))
    · have hr : r ∉ above := fun hmem => (h.2 r hmem).false
      rw [readRequestWithin, readRequestWithin, if_neg hr, if_neg hr]
      exact hrequest _ _ _ _ r (fun n hn => (ih _).1 n (h.inside (hμ (.clause hn))))
        fun a ha s hs => (ih _).2 s (h.inside (hμ (.source ha hs)))

/-! ### The constants of a request -/

lemma mem_children_of_mem_operands {n : Node} {c : NodeId} (h : c ∈ n.operands) : c ∈ n.children := by
  unfold Node.operands at h
  split at h
  · cases h
  · exact h

lemma holds_of_mem_parts {q : Request} {x : Part} (h : x ∈ g.parts q) :
    (∃ n ∈ q.clauseNodes, x = .node n) ∨
      ∃ a ∈ q.origins, ∃ s, (g.aliasOf a).origin = .request s ∧ x = .request s := by
  have hsource : ∀ {a}, a ∈ q.origins → x ∈ g.sourceParts a →
      ∃ a ∈ q.origins, ∃ s, (g.aliasOf a).origin = .request s ∧ x = .request s := by
    intro a ha hx
    cases horigin : (g.aliasOf a).origin with
    | table name => simp [sourceParts, horigin] at hx
    | request s => exact ⟨a, ha, s, horigin, by simpa [sourceParts, horigin] using hx⟩
  have hclauses : x ∈ g.clauseParts q → (∃ n ∈ q.clauseNodes, x = .node n) ∨
      ∃ a ∈ q.origins, ∃ s, (g.aliasOf a).origin = .request s ∧ x = .request s := by
    intro hx
    simp only [clauseParts, List.mem_append, List.mem_flatMap, List.mem_map, Option.mem_toList,
      joinParts, List.mem_singleton] at hx
    rcases hx with ⟨base, hbase, hx | ⟨j, hj, hx | hx⟩⟩ | ⟨n, hn, rfl⟩
    · exact .inr (hsource (Request.mem_origins.2 (.inl hbase)) hx)
    · exact .inr (hsource (Request.mem_origins.2 (.inr (.inl ⟨j, hj, rfl⟩))) hx)
    · exact .inl ⟨_, Request.mem_clauseNodes.2 (.inl ⟨j, hj, rfl⟩), hx⟩
    · refine .inl ⟨n, Request.mem_clauseNodes.2 ?_, rfl⟩
      rcases hn with ((hn | hn) | hn) | ⟨o, ho, hn⟩
      · exact .inr (.inr (.inl hn))
      · exact .inr (.inr (.inr (.inr (.inl hn))))
      · exact .inr (.inr (.inr (.inl hn)))
      · exact .inr (.inr (.inr (.inr (.inr (.inl ⟨o, ho, hn⟩)))))
  unfold parts at h
  split at h
  · rcases List.mem_append.1 h with h | h
    · obtain ⟨i, hi, rfl⟩ := List.mem_map.1 h
      exact .inl ⟨_, Request.mem_clauseNodes.2 (.inr (.inl ⟨i, hi, rfl⟩)), rfl⟩
    · exact hclauses h
  · rcases List.mem_append.1 h with h | h
    · obtain ⟨a, ha, rfl⟩ := List.mem_map.1 h
      exact .inl ⟨_, Request.mem_clauseNodes.2
        (.inr (.inr (.inr (.inr (.inr (.inr ⟨a, ha, .inr rfl⟩)))))), rfl⟩
    · exact hclauses h
  · cases h

lemma local_collecting (g : Graph) : g.collecting.Local g where
  node n part part' query query' hpart hquery := by
    have hoperands : (g.node n).operands.flatMap part = (g.node n).operands.flatMap part' :=
      List.flatMap_congr fun c hc => hpart c (mem_children_of_mem_operands hc)
    cases hn : g.node n with
    | const v => rfl
    | sub r => exact hquery r hn
    | _ => rw [hn] at hoperands; exact hoperands
  request r part part' query query' hpart hquery := by
    refine List.flatMap_congr fun x hx => ?_
    rcases holds_of_mem_parts hx with ⟨n, hn, rfl⟩ | ⟨a, ha, s, hs, rfl⟩
    · exact hpart n hn
    · exact hquery a ha s hs

/-- **The constants of a request are those of its parts, clause by clause.** -/
theorem constants_eq (ho : g.Ordered) (hg : g.Acyclic) (r : RequestId) :
    g.constants r =
      (g.parts (g.request r)).flatMap (Part.read (g.readNode g.collecting) g.constants) :=
  readRequest_eq (local_collecting g) (ranked_rank ho hg) r

/-- The pieces of a request bind its constants. -/
theorem params_readRequest (ho : g.Ordered) (hg : g.Acyclic) (d : Dialect) {r : RequestId}
    (hr : g.Uniform r) : Piece.params (g.readRequest (g.writing d) r) = g.constants r := by
  have hμ := ranked_rank ho hg
  refine (readWithin_induction₂ (μ := g.rank) (f := g.writing d) (k := g.collecting)
    (P := fun n ps vs => (∀ v, g.node n = .const v → ps = Writer.const v) ∧
      (g.UniformValue n → Piece.params ps = vs))
    (Q := fun r ps vs => g.Uniform r → Piece.params ps = vs)
    hμ.falls ?_ ?_ g.height []).2 r ⟨hμ.lt_height _, by simp⟩ hr
  · intro part part' query query' n hpart hquery
    refine ⟨fun v hv => by rw [hv]; rfl, fun hn => ?_⟩
    refine Writer.params_node (w := ⟨g, d, part, query⟩) _ (fun c hc => ?_) fun r hr => ?_
    · exact ⟨(hpart c hc).2 (hn.child hc), (hpart c hc).1⟩
    · exact hquery r hr (hn n r .refl hr)
  · intro part part' query query' r hpart hquery hr
    have hvalues : ∀ n ∈ (g.request r).clauseNodes,
        Writer.Binds ⟨g, d, part, query⟩ part' n := fun n hn =>
      ⟨(hpart n hn).2 (hr.clause hn), (hpart n hn).1⟩
    have hsources : ∀ a ∈ (g.request r).origins,
        Piece.params (Writer.source ⟨g, d, part, query⟩ a) =
          (g.sourceParts a).flatMap (Part.read part' query') := fun a ha =>
      Writer.params_source fun s hs => hquery a ha s hs (hr.nested (.inr ⟨a, ha, hs⟩))
    exact Writer.params_request hvalues hsources (hr r .refl)

/-- **A request binds its constants.** A request from which only selects and inserts can be reached
has a text in every dialect, and its parameters are the constants below it, clause by clause. -/
theorem params_writeRequest? (g : Graph) (ho : g.Ordered) (hg : g.Acyclic) {r : RequestId}
    (hr : g.Uniform r) (d : Dialect) :
    ∃ w, g.writeRequest? d r = some w ∧ w.params = g.constants r := by
  have hend : ((g.writer d).query r).any Piece.isEndless = false :=
    Piece.not_endless_of_spaced (spaced_readRequest ho hg d r)
  refine ⟨⟨Piece.sql d ((g.writer d).query r), Piece.params ((g.writer d).query r)⟩, ?_, ?_⟩
  · rw [writeRequest?, Written.ofPieces?, hend]
    rfl
  · exact params_readRequest ho hg d hr

lemma uniform_of_all (h : ∀ i < g.requests.size,
    (g.request ⟨i⟩).kind = .select ∨ (g.request ⟨i⟩).kind = .insertSelect) (r : RequestId) :
    g.Uniform r := by
  intro s _
  by_cases hs : s.index < g.requests.size
  · exact h s.index hs
  · rw [request_of_size_le (Nat.not_lt.1 hs)]
    exact .inl rfl

theorem params_writeRequest?_hostile : hostile.Ordered ∧ hostile.Acyclic ∧ hostile.Uniform ⟨0⟩ ∧
    hostile.constants ⟨0⟩ = [.int 7, .string "$1"] ∧
    ∃ w, hostile.writeRequest? .db2 ⟨0⟩ = some w ∧ w.params = hostile.constants ⟨0⟩ := by
  have hr : hostile.Uniform ⟨0⟩ := uniform_of_all (by decide) _
  exact ⟨ordered_hostile, acyclic_hostile, hr, rfl,
    params_writeRequest? hostile ordered_hostile acyclic_hostile hr .db2⟩

/-! ### Constants that are tested for null, and joins without a base -/

/-- The operands that are written, without the constants that are compared with null. -/
def untestedOperands (g : Graph) (n : Node) : List NodeId :=
  match n with
  | .binary op l r =>
    if (op = .equal ∨ op = .notEqual) ∧ ((g.node l).isNull ∨ (g.node r).isNull) then
      [l, r].filter fun c => !(g.node c).isConst
    else [l, r]
  | n => n.operands

/-- The constants below a request, without those that are compared with null. -/
def untestedConstants (g : Graph) (r : RequestId) : List Value :=
  g.readRequest (constantsIn g.untestedOperands fun r => g.parts (g.request r)) r

/-- The constants in all clauses of a request and of those below it. -/
def clauseConstants (g : Graph) (r : RequestId) : List Value :=
  g.readRequest (constantsIn Node.operands fun r => (g.request r).clauseNodes.map .node) r

/-- Two queries: the rows of a table for which `5` is null, and one without a base that joins the
table under a condition. -/
def askedValue : Graph where
  entries := #[⟨.const (.int 5), none⟩, ⟨.const .null, none⟩, ⟨.binary .equal ⟨0⟩ ⟨1⟩, none⟩,
    ⟨.column ⟨0⟩ "TOTAL", none⟩, ⟨.const (.int 7), none⟩, ⟨.binary .equal ⟨3⟩ ⟨4⟩, none⟩]
  aliases := #[{ name := "t0", origin := .table "ORDER", entity := none, idColumn := none }]
  requests := #[{ base := some ⟨0⟩, filter := some ⟨2⟩ }, { joins := [⟨⟨0⟩, .inner, ⟨5⟩⟩] }]

lemma acyclic_askedValue (ho : askedValue.Ordered) : askedValue.Acyclic := by
  refine acyclic_of_older ho ?_ ?_
  · rintro ⟨m⟩ s hm
    have hlt := lt_size_of_node_eq_sub hm
    change m < 6 at hlt
    interval_cases m <;> cases hm
  · rintro r ⟨a⟩ - s hs
    have hlt : a < 1 := by
      by_contra h
      simp [aliasOf, askedValue, Array.getD, h] at hs
    interval_cases a
    cases hs

/-- **Not every constant is left out where null is compared, and not every one of a clause is bound.**
A constant that is tested for null is bound, and the join of a query without a base is not written. -/
theorem params_askedValue : askedValue.Ordered ∧ askedValue.Acyclic ∧
    askedValue.Uniform ⟨0⟩ ∧ askedValue.Uniform ⟨1⟩ ∧
    (∃ w, askedValue.writeRequest? .postgres ⟨0⟩ = some w ∧ w.params = [.int 5] ∧
      w.params ≠ askedValue.untestedConstants ⟨0⟩) ∧
    ∃ w, askedValue.writeRequest? .postgres ⟨1⟩ = some w ∧ w.params = [] ∧
      w.params ≠ askedValue.clauseConstants ⟨1⟩ := by
  have ho : askedValue.Ordered := ordered_iff.2 (by decide)
  have huniform := uniform_of_all (g := askedValue) (by decide)
  refine ⟨ho, acyclic_askedValue ho, huniform _, huniform _,
    ⟨⟨"SELECT * FROM \"ORDER\" AS \"t0\" WHERE ($1 IS NULL)", [.int 5]⟩, rfl, rfl, ?_⟩,
    ⟨"SELECT *", []⟩, rfl, rfl, ?_⟩
  · have hclaimed : askedValue.untestedConstants ⟨0⟩ = [] := rfl
    rw [hclaimed]
    exact List.cons_ne_nil _ _
  · have hclaimed : askedValue.clauseConstants ⟨1⟩ = [.int 7] := rfl
    rw [hclaimed]
    exact (List.cons_ne_nil _ _).symm

end Graph

end EntityQuery.Sql
