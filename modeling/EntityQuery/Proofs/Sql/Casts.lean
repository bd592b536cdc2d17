import EntityQuery.Proofs.Sql.Constants

/-!
The values that state their types.

* `States`: a constant stands somewhere below a part of a statement where it states its type: it is
  selected, inserted, joined to a text or a branch of a conditional, in the request itself or in one that
  is written inside it.
* `typed_mem_readRequest`: in the dialects that type parameters, these are the values that are written
  with their types.
* `casts_writeRequest?`: what is written of them. A text is cast to a type without a length in one of the
  two dialects, and in the other one to a type with the length of a column that declares none: it is as
  long as the text unless the text has more than a hundred letters.
-/

namespace EntityQuery.Sql

/-! ### Where constants state their types -/

namespace Node

/-- The operands of a node that state their types if they are constants. -/
def typedOperands : Node → List NodeId
  | .binary .concat l r => [l, r]
  | .cond _ y z => [y, z]
  | _ => []

/-- The parts of a node that are written. -/
def writtenParts : Node → List Part
  | .sub r => [.request r]
  | n => n.operands.map .node

end Node

namespace Graph

/-- The values of a request that state their types if they are constants. -/
def typedValues (q : Request) : List NodeId :=
  match q.kind, q.target <|> q.base with
  | .select, _ => q.items.map Item.node
  | .insertSelect, some _ => q.assignments.map Assignment.value
  | _, _ => []

variable (g : Graph)

/-- The parts of what tells the rows that a request writes. -/
def restrictionParts (q : Request) (target : AliasId) : List Part :=
  match (g.aliasOf target).idColumn, q.joins with
  | some _, _ :: _ =>
    g.sourceParts target ++ q.joins.flatMap g.joinParts ++ q.filter.toList.map .node
  | _, _ => q.filter.toList.map .node

/-- The parts of a request that are written where other tables are read in a query of keys. -/
def writtenParts (q : Request) : List Part :=
  match q.kind, q.target <|> q.base with
  | .delete, some target => g.sourceParts target ++ g.restrictionParts q target
  | .update, some target =>
    g.sourceParts target ++ q.assignments.map (fun a => .node a.value) ++ g.restrictionParts q target
  | _, _ => g.parts q

/-- A constant is stated where it would stand. -/
def IsStated (v : Value) (n : NodeId) : Prop := g.node n = .const v ∧ v.isNull = false

/-- A value states its type somewhere in a part. -/
inductive States (v : Value) : Part → Prop
  | operand {n c : NodeId} (hc : c ∈ (g.node n).typedOperands) (h : g.IsStated v c) :
      States v (.node n)
  | value {r : RequestId} {c : NodeId} (hc : c ∈ typedValues (g.request r)) (h : g.IsStated v c) :
      States v (.request r)
  | inNode {n : NodeId} {x : Part} (hx : x ∈ (g.node n).writtenParts) (h : States v x) :
      States v (.node n)
  | inRequest {r : RequestId} {x : Part} (hx : x ∈ g.writtenParts (g.request r)) (h : States v x) :
      States v (.request r)

variable {g} {v : Value}

lemma states_node {n : NodeId} : g.States v (.node n) ↔
    (∃ c ∈ (g.node n).typedOperands, g.IsStated v c) ∨ ∃ x ∈ (g.node n).writtenParts, g.States v x := by
  constructor
  · intro h
    cases h with
    | operand hc h => exact .inl ⟨_, hc, h⟩
    | inNode hx h => exact .inr ⟨_, hx, h⟩
  · rintro (⟨c, hc, h⟩ | ⟨x, hx, h⟩)
    · exact .operand hc h
    · exact .inNode hx h

lemma states_request {r : RequestId} : g.States v (.request r) ↔
    (∃ c ∈ typedValues (g.request r), g.IsStated v c) ∨
      ∃ x ∈ g.writtenParts (g.request r), g.States v x := by
  constructor
  · intro h
    cases h with
    | value hc h => exact .inl ⟨_, hc, h⟩
    | inRequest hx h => exact .inr ⟨_, hx, h⟩
  · rintro (⟨c, hc, h⟩ | ⟨x, hx, h⟩)
    · exact .value hc h
    · exact .inRequest hx h

end Graph

/-- The table that a request writes is one of its sources. -/
lemma Request.written_mem_origins {q : Request} {target : AliasId}
    (h : (q.target <|> q.base) = some target) : target ∈ q.origins := by
  rw [mem_origins]
  cases htarget : q.target with
  | none => exact .inl (by simpa [htarget] using h)
  | some a => exact .inr (.inr (by simpa [htarget] using h))

/-! ### Typed pieces -/

lemma Piece.typed_mem_commas {v : Value} {pss : List (List Piece)} :
    Piece.typed v ∈ commas pss ↔ ∃ ps ∈ pss, Piece.typed v ∈ ps := by
  induction pss with
  | nil => simp [commas]
  | cons ps pss ih =>
    cases pss with
    | nil => simp [commas]
    | cons qs pss => simp [commas, ih]

namespace Writer

open Piece (commas qualified typed_mem_commas)

variable {w : Writer} {v : Value} {S : Part → Prop}

/-- The pieces of a value state a type where the value does; a constant is written as itself. -/
structure Shows (w : Writer) (v : Value) (S : Part → Prop) (n : NodeId) : Prop where
  mem : Piece.typed v ∈ w.value n ↔ S (.node n)
  const : ∀ u, w.graph.node n = .const u → w.value n = const u

lemma typed_not_mem_const (u : Value) : Piece.typed v ∉ const u := by
  unfold const
  split <;> simp

lemma typed_not_mem_column (source : Alias) (name : String) : Piece.typed v ∉ column source name := by
  unfold column
  split <;> simp [qualified]

lemma typed_not_mem_row (source : Alias) : Piece.typed v ∉ row source := by
  unfold row
  split <;> simp [qualified]

lemma typed_not_mem_assignedName (a : Assignment) : Piece.typed v ∉ w.assignedName a := by
  unfold assignedName
  split <;> simp

lemma Shows.not_of_const {n : NodeId} {u : Value} (h : w.Shows v S n) (hn : w.graph.node n = .const u) :
    ¬ S (.node n) := by
  rw [← h.mem, h.const u hn]
  exact typed_not_mem_const u

/-- The null constant states no type. -/
lemma Shows.not_of_isNull {n : NodeId} (h : w.Shows v S n) (hn : (w.graph.node n).isNull = true) :
    ¬ S (.node n) := by
  cases hnode : w.graph.node n with
  | const u => exact h.not_of_const hnode
  | _ => simp [hnode, Node.isNull] at hn

/-- Where a type is stated, it is that of a constant itself, or the types of what is in the value. -/
lemma Shows.typed {n : NodeId} (h : w.Shows v S n) :
    Piece.typed v ∈ w.typed n ↔ w.graph.IsStated v n ∨ S (.node n) := by
  unfold Writer.typed Graph.IsStated
  split
  · next u hu =>
    have hnot := h.not_of_const hu
    rw [hu]
    split
    · next hnull =>
      rw [h.mem]
      constructor
      · exact .inr
      · rintro (⟨⟨⟩, hv⟩ | hS)
        · simp [hnull] at hv
        · exact hS
    · next hnull =>
      rw [List.mem_singleton, Piece.typed.injEq, or_iff_left hnot, Node.const.injEq]
      constructor
      · rintro rfl
        exact ⟨rfl, by simpa using hnull⟩
      · rintro ⟨rfl, -⟩
        rfl
  · next hconst =>
    rw [h.mem]
    exact (or_iff_right fun hn => hconst v hn.1).symm

/-! ### Values -/

lemma typed_mem_unary (op : UnaryOp) {operand : Option NodeId} (h : ∀ c ∈ operand, w.Shows v S c) :
    Piece.typed v ∈ w.unary op operand ↔ ∃ c ∈ operand, S (.node c) := by
  cases operand with
  | none => cases op <;> simp [unary]
  | some c => cases op <;> simp [unary, (h c rfl).mem]

lemma typed_mem_binary (op : BinaryOp) {l r : NodeId} (hl : w.Shows v S l) (hr : w.Shows v S r) :
    Piece.typed v ∈ w.binary op l r ↔ (∃ c ∈ (Node.binary op l r).typedOperands, w.graph.IsStated v c) ∨
      S (.node l) ∨ S (.node r) := by
  unfold binary
  split
  · next htest =>
    -- the side that is not written is the null constant, which states no type
    have hequal : op = .equal ∨ op = .notEqual := by
      simp only [isNullTest, Bool.and_eq_true, Bool.or_eq_true, beq_iff_eq] at htest
      exact htest.1
    have htyped : (Node.binary op l r).typedOperands = [] := by
      rcases hequal with rfl | rfl <;> rfl
    by_cases hnull : (w.graph.node l).isNull = true
    · simp [hnull, htyped, hr.mem, hl.not_of_isNull hnull]
    · have hright : (w.graph.node r).isNull = true := by
        simp only [isNullTest, hnull, Bool.and_eq_true, Bool.false_or] at htest
        exact htest.2
      simp [hnull, htyped, hl.mem, hr.not_of_isNull hright]
  · cases op with
    | concat =>
      simp only [Node.typedOperands, List.mem_cons, List.mem_append, List.not_mem_nil, or_false,
        hl.typed, hr.typed, reduceCtorEq, false_or, or_and_right, exists_or, exists_eq_left]
      exact or_or_or_comm ..
    | _ => simp [Node.typedOperands, hl.mem, hr.mem]

/-- **A node states the types that its operands state.** -/
theorem typed_mem_node {n : Node} (hv : ∀ c ∈ n.children, w.Shows v S c)
    (hq : ∀ r, n = .sub r → (Piece.typed v ∈ w.query r ↔ S (.request r))) :
    Piece.typed v ∈ w.node n ↔
      (∃ c ∈ n.typedOperands, w.graph.IsStated v c) ∨ ∃ x ∈ n.writtenParts, S x := by
  cases n with
  | column a name =>
    simp [node, typed_not_mem_column, Node.typedOperands, Node.writtenParts, Node.operands, Node.children]
  | row a =>
    simp [node, typed_not_mem_row, Node.typedOperands, Node.writtenParts, Node.operands, Node.children]
  | const u =>
    simp [node, typed_not_mem_const, Node.typedOperands, Node.writtenParts, Node.operands, Node.children]
  | unary op operand =>
    have hunary := typed_mem_unary (w := w) (v := v) (S := S) op
      fun c hc => hv c (by simpa [Node.children] using hc)
    simpa [node, Node.typedOperands, Node.writtenParts, Node.operands, Node.children] using hunary
  | binary op l r =>
    have hbinary := typed_mem_binary op (hv l (by simp [Node.children])) (hv r (by simp [Node.children]))
    simpa [node, Node.writtenParts, Node.operands, Node.children] using hbinary
  | isIn e vs =>
    cases vs with
    | nil => simp [node, Node.typedOperands, Node.writtenParts, Node.operands]
    | cons u us =>
      have hoperand := (hv e (by simp [Node.children])).mem
      have hfirst := (hv u (by simp [Node.children])).mem
      have hothers : (∃ c ∈ us, Piece.typed v ∈ w.value c) ↔ ∃ c ∈ us, S (.node c) :=
        exists_congr fun c => and_congr_right fun hc => (hv c (by simp [Node.children, hc])).mem
      simp [node, typed_mem_commas, Node.typedOperands, Node.writtenParts, Node.operands,
        Node.children, hoperand, hfirst, hothers]
  | cond t y z =>
    have htest := (hv t (by simp [Node.children])).mem
    have hyes := (hv y (by simp [Node.children])).typed
    have hno := (hv z (by simp [Node.children])).typed
    have hstated : (∃ c ∈ (Node.cond t y z).typedOperands, w.graph.IsStated v c) ↔
        w.graph.IsStated v y ∨ w.graph.IsStated v z := by simp [Node.typedOperands]
    have hparts : (∃ x ∈ (Node.cond t y z).writtenParts, S x) ↔
        S (.node t) ∨ S (.node y) ∨ S (.node z) := by
      simp [Node.writtenParts, Node.operands, Node.children]
    rw [hstated, hparts, or_left_comm, ← or_or_or_comm, ← hyes, ← hno, ← htest]
    simp [node]
  | sub r =>
    simp [node, Node.typedOperands, Node.writtenParts, hq r rfl]

/-! ### Clauses -/

lemma exists_mem_append {as bs : List Part} :
    (∃ x ∈ as ++ bs, S x) ↔ (∃ x ∈ as, S x) ∨ ∃ x ∈ bs, S x := by
  simp only [List.mem_append, or_and_right, exists_or]

lemma exists_mem_nodes {ns : List NodeId} : (∃ x ∈ ns.map Part.node, S x) ↔ ∃ n ∈ ns, S (.node n) := by
  simp

lemma typed_mem_source {a : AliasId} (h : ∀ s, (w.graph.aliasOf a).origin = .request s →
    (Piece.typed v ∈ w.query s ↔ S (.request s))) :
    Piece.typed v ∈ w.source a ↔ ∃ x ∈ w.graph.sourceParts a, S x := by
  cases horigin : (w.graph.aliasOf a).origin with
  | table name => simp [source, Graph.sourceParts, horigin]
  | request s => simp [source, Graph.sourceParts, horigin, h s horigin]

lemma typed_mem_after (keyword : String) {n : Option NodeId} (h : ∀ c ∈ n, w.Shows v S c) :
    Piece.typed v ∈ w.after keyword n ↔ ∃ c ∈ n, S (.node c) := by
  cases n with
  | none => simp [after]
  | some c => simp [after, (h c rfl).mem]

lemma typed_mem_afterAll (keyword : String) (pss : List (List Piece)) :
    Piece.typed v ∈ afterAll keyword pss ↔ ∃ ps ∈ pss, Piece.typed v ∈ ps := by
  unfold afterAll
  split
  · next h => simp [List.isEmpty_iff.1 h]
  · simp [typed_mem_commas]

section Clauses

variable {q : Request} (hv : ∀ n ∈ q.clauseNodes, w.Shows v S n)
  (hs : ∀ a ∈ q.origins, (Piece.typed v ∈ w.source a ↔ ∃ x ∈ w.graph.sourceParts a, S x))

include hv

lemma typed_mem_selection : Piece.typed v ∈ w.selection q ↔
    (∃ c ∈ q.items.map Item.node, w.graph.IsStated v c) ∨ ∃ c ∈ q.items.map Item.node, S (.node c) := by
  have hitems : ∀ i ∈ q.items, (Piece.typed v ∈ w.typed i.node ↔
      w.graph.IsStated v i.node ∨ S (.node i.node)) := fun i hi =>
    (hv _ (Request.item_mem_clauseNodes hi)).typed
  unfold selection
  split
  · next h => simp [List.isEmpty_iff.1 h]
  · rw [typed_mem_commas]
    simp only [List.mem_map, exists_exists_and_eq_and, ← exists_or, ← and_or_left]
    refine exists_congr fun i => and_congr_right fun hi => ?_
    rw [← hitems i hi]
    cases i.label <;> simp

lemma typed_mem_inserted :
    Piece.typed v ∈ commas (q.assignments.map fun a => w.typed a.value) ↔
      (∃ c ∈ q.assignments.map Assignment.value, w.graph.IsStated v c) ∨
        ∃ c ∈ q.assignments.map Assignment.value, S (.node c) := by
  rw [typed_mem_commas]
  simp only [List.mem_map, exists_exists_and_eq_and, ← exists_or, ← and_or_left]
  exact exists_congr fun a => and_congr_right fun ha => (hv _ (Request.value_mem_clauseNodes ha)).typed

lemma typed_mem_whereClause : Piece.typed v ∈ w.whereClause q ↔ ∃ c ∈ q.filter, S (.node c) :=
  typed_mem_after " WHERE " fun c hc => hv c (Request.filter_mem_clauseNodes hc)

lemma typed_mem_restrictions : Piece.typed v ∈ w.restrictions q ↔
    ∃ c ∈ q.filter.toList ++ q.groups ++ q.having.toList ++ q.orders.map Order.node, S (.node c) := by
  have hgroups : ∀ n ∈ q.groups, (Piece.typed v ∈ w.value n ↔ S (.node n)) := fun n hn =>
    (hv n (Request.group_mem_clauseNodes hn)).mem
  have hhaving : Piece.typed v ∈ w.after " HAVING " q.having ↔ ∃ c ∈ q.having, S (.node c) :=
    typed_mem_after " HAVING " fun c hc => hv c (Request.having_mem_clauseNodes hc)
  have horders : ∀ o ∈ q.orders, (Piece.typed v ∈ (if o.ascending then w.value o.node
      else w.value o.node ++ [.text " DESC"]) ↔ S (.node o.node)) := by
    intro o ho
    rw [← (hv _ (Request.order_mem_clauseNodes ho)).mem]
    cases o.ascending <;> simp
  simp only [restrictions, orderClause, List.mem_append, typed_mem_whereClause hv, typed_mem_afterAll,
    hhaving, List.mem_map, exists_exists_and_eq_and, Option.mem_toList, or_and_right, exists_or]
  refine or_congr (or_congr (or_congr Iff.rfl ?_) Iff.rfl) ?_
  · exact exists_congr fun n => and_congr_right (hgroups n)
  · exact exists_congr fun o => and_congr_right (horders o)

include hs

lemma typed_mem_joins :
    Piece.typed v ∈ w.joins q ↔ ∃ x ∈ q.joins.flatMap w.graph.joinParts, S x := by
  rw [joins, List.mem_flatMap]
  simp only [List.mem_flatMap, ← exists_and_right]
  rw [exists_comm]
  refine exists_congr fun j => ?_
  simp only [and_assoc, exists_and_left]
  refine and_congr_right fun hj => ?_
  have hsource := hs j.source (Request.mem_origins.2 (.inr (.inl ⟨j, hj, rfl⟩)))
  have hcondition := (hv _ (Request.condition_mem_clauseNodes hj)).mem
  simp [Graph.joinParts, hsource, hcondition, or_and_right, exists_or]

lemma typed_mem_fromClause : Piece.typed v ∈ w.fromClause q ↔
    ∃ x ∈ q.base.toList.flatMap fun base => w.graph.sourceParts base ++
      q.joins.flatMap w.graph.joinParts, S x := by
  cases hbase : q.base with
  | none => cases hd : w.dialect <;> simp [fromClause, hbase, hd, Dialect.dummyTable]
  | some base =>
    have hsource := hs base (Request.mem_origins.2 (.inl hbase))
    simp only [fromClause, hbase, List.mem_cons, List.mem_append, reduceCtorEq, false_or, hsource,
      typed_mem_joins hv hs, Option.toList_some, List.flatMap_cons, List.flatMap_nil, List.append_nil,
      or_and_right, exists_or]

lemma typed_mem_select (values : List Piece) : Piece.typed v ∈ w.select q values ↔
    Piece.typed v ∈ values ∨ ∃ x ∈ w.graph.clauseParts q, S x := by
  have hclauses : Piece.typed v ∈ w.select q values ↔
      Piece.typed v ∈ values ∨ Piece.typed v ∈ w.fromClause q ∨ Piece.typed v ∈ w.restrictions q := by
    have hdistinct : Piece.typed v ∉ (if q.distinct then [Piece.text "DISTINCT "] else []) := by
      split <;> simp
    simp [select, hdistinct]
  rw [hclauses, typed_mem_fromClause hv hs, typed_mem_restrictions hv, Graph.clauseParts,
    exists_mem_append, exists_mem_nodes]

/-- The keys of what is written are queried where other tables are joined. -/
lemma typed_mem_restriction {target : AliasId} (htarget : target ∈ q.origins) :
    Piece.typed v ∈ w.restriction q target ↔ ∃ x ∈ w.graph.restrictionParts q target, S x := by
  have hfilter : Piece.typed v ∈ w.whereClause q ↔ ∃ x ∈ q.filter.toList.map Part.node, S x := by
    rw [typed_mem_whereClause hv]
    simp
  cases hkey : (w.graph.aliasOf target).idColumn with
  | none => simpa [restriction, Graph.restrictionParts, hkey] using hfilter
  | some key =>
    cases hjoins : q.joins with
    | nil => simpa [restriction, Graph.restrictionParts, hkey, hjoins] using hfilter
    | cons j js =>
      have hwritten : Piece.typed v ∈ w.restriction q target ↔ (Piece.typed v ∈ w.source target ∨
          Piece.typed v ∈ w.joins q) ∨ Piece.typed v ∈ w.whereClause q := by
        simp [restriction, hkey, hjoins, qualified, or_assoc]
      have hparts : w.graph.restrictionParts q target = w.graph.sourceParts target ++
          q.joins.flatMap w.graph.joinParts ++ q.filter.toList.map .node := by
        simp only [Graph.restrictionParts, hkey, hjoins]
      rw [hwritten, hparts, exists_mem_append, exists_mem_append, hs target htarget,
        typed_mem_joins hv hs, hfilter]

lemma typed_mem_insert (target : AliasId) : Piece.typed v ∈ w.insert q target ↔
    (∃ c ∈ q.assignments.map Assignment.value, w.graph.IsStated v c) ∨
      (∃ c ∈ q.assignments.map Assignment.value, S (.node c)) ∨ ∃ x ∈ w.graph.clauseParts q, S x := by
  have hnames : Piece.typed v ∉ commas (q.assignments.map w.assignedName) := by
    rw [typed_mem_commas]
    simp [typed_not_mem_assignedName]
  rw [← or_assoc, ← typed_mem_inserted hv, ← typed_mem_select hv hs, insert]
  cases (w.graph.aliasOf target).origin <;> simp [hnames]

variable {target : AliasId} (htarget : target ∈ q.origins) (hstyle : w.dialect.writeStyle = .subquery)
include htarget hstyle

lemma typed_mem_delete : Piece.typed v ∈ w.delete q target ↔
    ∃ x ∈ w.graph.sourceParts target ++ w.graph.restrictionParts q target, S x := by
  rw [exists_mem_append, ← hs target htarget, ← typed_mem_restriction hv hs htarget]
  simp [delete, hstyle]

lemma typed_mem_update : Piece.typed v ∈ w.update q target ↔
    ∃ x ∈ w.graph.sourceParts target ++ q.assignments.map (fun a => .node a.value) ++
      w.graph.restrictionParts q target, S x := by
  have hassigned : (∃ a ∈ q.assignments, Piece.typed v ∈ w.value a.value) ↔
      ∃ x ∈ q.assignments.map (fun a => Part.node a.value), S x := by
    simp only [List.mem_map, exists_exists_and_eq_and]
    exact exists_congr fun a => and_congr_right fun ha => (hv _ (Request.value_mem_clauseNodes ha)).mem
  rw [exists_mem_append, exists_mem_append, ← hs target htarget, ← hassigned,
    ← typed_mem_restriction hv hs htarget]
  simp [update, hstyle, setClause, typed_mem_commas, typed_not_mem_assignedName, or_assoc]

omit htarget in
/-- **A request states the types of its values and those that its parts state**, in the dialects in
which the rows to be written are told by their keys. -/
theorem typed_mem_request : Piece.typed v ∈ w.request q ↔
    (∃ c ∈ Graph.typedValues q, w.graph.IsStated v c) ∨ ∃ x ∈ w.graph.writtenParts q, S x := by
  cases hkind : q.kind with
  | select =>
    have hitems : (∃ x ∈ q.items.map fun i => Part.node i.node, S x) ↔
        ∃ c ∈ q.items.map Item.node, S (.node c) := by simp
    simp only [request, Graph.typedValues, Graph.writtenParts, Graph.parts, hkind]
    rw [typed_mem_select hv hs, typed_mem_selection hv, exists_mem_append, hitems, or_assoc]
  | insertSelect =>
    cases htarget : q.target <|> q.base with
    | none => simp [request, Graph.typedValues, Graph.writtenParts, Graph.parts, hkind, htarget]
    | some target =>
      have hassigned : (∃ x ∈ q.assignments.map fun a => Part.node a.value, S x) ↔
          ∃ c ∈ q.assignments.map Assignment.value, S (.node c) := by simp
      simp only [request, Graph.typedValues, Graph.writtenParts, Graph.parts, hkind, htarget]
      rw [typed_mem_insert hv hs, exists_mem_append, hassigned]
  | update =>
    cases htarget : q.target <|> q.base with
    | none => simp [request, Graph.typedValues, Graph.writtenParts, Graph.parts, hkind, htarget]
    | some target =>
      simp only [request, Graph.typedValues, Graph.writtenParts, hkind, htarget]
      rw [typed_mem_update hv hs (Request.written_mem_origins htarget) hstyle]
      simp
  | delete =>
    cases htarget : q.target <|> q.base with
    | none => simp [request, Graph.typedValues, Graph.writtenParts, Graph.parts, hkind, htarget]
    | some target =>
      simp only [request, Graph.typedValues, Graph.writtenParts, hkind, htarget]
      rw [typed_mem_delete hv hs (Request.written_mem_origins htarget) hstyle]
      simp

end Clauses

end Writer

/-! ### Statements -/

namespace Graph

variable {g : Graph} {d : Dialect} {r : RequestId}

lemma writeStyle_of_typesParameters (hd : d.typesParameters = true) : d.writeStyle = .subquery := by
  cases d <;> first | rfl | cases hd

/-- **The values of a statement that state their types** are the constants below the request where they
do, in the dialects that type parameters. -/
theorem typed_mem_readRequest (ho : g.Ordered) (hg : g.Acyclic) (hd : d.typesParameters = true)
    (r : RequestId) (v : Value) :
    Piece.typed v ∈ g.readRequest (g.writing d) r ↔ g.States v (.request r) := by
  have hμ := ranked_rank ho hg
  refine (readWithin_induction₂ (μ := g.rank) (f := g.writing d) (k := g.writing d)
    (P := fun n ps _ => (Piece.typed v ∈ ps ↔ g.States v (.node n)) ∧
      ∀ u, g.node n = .const u → ps = Writer.const u)
    (Q := fun r ps _ => Piece.typed v ∈ ps ↔ g.States v (.request r))
    hμ.falls ?_ ?_ g.height []).2 r ⟨hμ.lt_height _, by simp⟩
  · intro part _ query _ n hpart hquery
    refine ⟨?_, fun u hu => by rw [hu]; rfl⟩
    rw [states_node]
    exact Writer.typed_mem_node (w := ⟨g, d, part, query⟩) (fun c hc => ⟨(hpart c hc).1, (hpart c hc).2⟩)
      hquery
  · intro part _ query _ r hpart hquery
    rw [states_request]
    refine Writer.typed_mem_request (w := ⟨g, d, part, query⟩)
      (fun n hn => ⟨(hpart n hn).1, (hpart n hn).2⟩) (fun a ha => ?_) (writeStyle_of_typesParameters hd)
    exact Writer.typed_mem_source fun s hs => hquery a ha s hs

end Graph

/-! ### The text of casts -/

namespace Piece

variable {d : Dialect}

lemma texts_append (ps qs : List Piece) (index : Nat) : texts d index (ps ++ qs) =
    texts d index ps ++ texts d (index + (params ps).length) qs := by
  induction ps generalizing index with
  | nil => rfl
  | cons p ps ih =>
    cases p <;> simp [texts, ih, value?, Nat.add_assoc, Nat.add_comm 1, params, List.filterMap_cons]

lemma sql_append_cons (ps : List Piece) (p : Piece) (qs : List Piece) : ∃ after,
    sql d (ps ++ p :: qs) = sql d ps ++ p.write d (params ps).length ++ after := by
  refine ⟨String.join (texts d (if p.value?.isSome then (params ps).length + 1
    else (params ps).length) qs), ?_⟩
  rw [← String.toList_inj]
  simp [sql, texts_append, texts]

/-- A typed value is written in its place. -/
lemma exists_write {ps : List Piece} {v : Value} (h : typed v ∈ ps) : ∃ index before after,
    (params ps)[index]? = some v ∧ sql d ps = before ++ (typed v).write d index ++ after := by
  obtain ⟨qs, rest, rfl⟩ := List.append_of_mem h
  obtain ⟨after, hafter⟩ := sql_append_cons (d := d) qs (typed v) rest
  refine ⟨(params qs).length, sql d qs, after, ?_, hafter⟩
  rw [params_append, params_typed]
  simp

end Piece

/-- The length that the name of a type declares in parentheses. -/
def declaredLength? (type : String) : Option Nat :=
  match ((type.toList.dropWhile (· != '(')).drop 1).takeWhile Char.isDigit with
  | [] => none
  | digits => some (digits.foldl (fun n c => 10 * n + (c.toNat - '0'.toNat)) 0)

/-- What a dialect casts a text to is as long as the text, if it has a length. -/
def CastKeeps (d : Dialect) (s : String) : Prop :=
  ∀ n ∈ declaredLength? ((Value.string s).dataType.sqlType d none), s.length ≤ n

lemma declaredLength?_varChar (d : Dialect) :
    declaredLength? (DataType.varChar.sqlType d none) = DataType.varChar.defaultLength d := by
  cases d <;> decide

lemma castKeeps_iff {d : Dialect} (hd : d.typesParameters = true) (s : String) :
    CastKeeps d s ↔ (d = .db2 → s.length ≤ 100) := by
  have hlength : CastKeeps d s ↔ ∀ n ∈ DataType.varChar.defaultLength d, s.length ≤ n := by
    rw [← declaredLength?_varChar]
    rfl
  rw [hlength]
  cases d with
  | postgres => simp [DataType.defaultLength]
  | db2 => simp [DataType.defaultLength]
  | mySql => cases hd
  | sqlServer => cases hd

namespace Graph

lemma States.not_isNull {g : Graph} {v : Value} {x : Part} (h : g.States v x) : v.isNull = false := by
  induction h with
  | operand _ h => exact h.2
  | value _ h => exact h.2
  | inNode _ _ ih => exact ih
  | inRequest _ _ ih => exact ih

/-- **What is written of the values that state their types.** A request has a text in the dialects that
type parameters, and the values with types are those that the request and its parts state. Each of them
is bound, and its mark is cast to its own type. A text keeps all its letters in one of the two dialects;
in the other one it does exactly if it has at most a hundred. -/
theorem casts_writeRequest? (g : Graph) (ho : g.Ordered) (hg : g.Acyclic) (d : Dialect)
    (hd : d.typesParameters = true) (r : RequestId) : ∃ w, g.writeRequest? d r = some w ∧
      (∀ v, Piece.typed v ∈ (g.writer d).query r ↔ g.States v (.request r)) ∧
      (∀ v, g.States v (.request r) → ∃ index before after, w.params[index]? = some v ∧
        w.sql = before ++ d.cast (d.placeholder index) v.dataType ++ after) ∧
      ∀ s, g.States (.string s) (.request r) →
        (CastKeeps d s ↔ (d = .db2 → s.length ≤ 100)) := by
  have hend : ((g.writer d).query r).any Piece.isEndless = false :=
    Piece.not_endless_of_spaced (spaced_readRequest ho hg d r)
  have hstates := typed_mem_readRequest ho hg hd r
  refine ⟨⟨Piece.sql d ((g.writer d).query r), Piece.params ((g.writer d).query r)⟩, ?_, hstates, ?_,
    fun s _ => castKeeps_iff hd s⟩
  · rw [writeRequest?, Written.ofPieces?, hend]
    rfl
  · intro v hv
    obtain ⟨index, before, after, hparam, hsql⟩ := Piece.exists_write (d := d) ((hstates v).2 hv)
    refine ⟨index, before, after, hparam, ?_⟩
    rw [Piece.write, hd, hv.not_isNull] at hsql
    exact hsql

/-- A query that selects a text alone. -/
def selecting (s : String) : Graph where
  entries := #[⟨.const (.string s), none⟩]
  requests := #[{ items := [{ node := ⟨0⟩ }] }]

lemma states_selecting (s : String) : (selecting s).States (.string s) (.request ⟨0⟩) :=
  .value (c := ⟨0⟩) (List.mem_singleton.2 rfl) ⟨rfl, rfl⟩

lemma ordered_selecting (s : String) : (selecting s).Ordered :=
  ordered_iff.2 (of_decide_eq_true rfl)

lemma acyclic_selecting (s : String) : (selecting s).Acyclic := by
  refine acyclic_of_older (ordered_selecting s) ?_ ?_
  · rintro ⟨m⟩ r hm
    have hlt := lt_size_of_node_eq_sub hm
    change m < 1 at hlt
    interval_cases m
    cases hm
  · rintro r ⟨a⟩ - q hq
    cases hq

theorem casts_writeRequest?_selecting : (selecting "Ann").Ordered ∧ (selecting "Ann").Acyclic ∧
    Dialect.db2.typesParameters = true ∧ (selecting "Ann").States (.string "Ann") (.request ⟨0⟩) ∧
    (∃ w, (selecting "Ann").writeRequest? .db2 ⟨0⟩ = some w ∧
      w.sql = "SELECT CAST(? AS NVARCHAR(100)) FROM SYSIBM.SYSDUMMY1") ∧
    CastKeeps .db2 "Ann" := by
  obtain ⟨w, hw, -, -, hkeeps⟩ := casts_writeRequest? (selecting "Ann") (ordered_selecting _)
    (acyclic_selecting _) .db2 rfl ⟨0⟩
  refine ⟨ordered_selecting _, acyclic_selecting _, rfl, states_selecting _, ⟨w, hw, ?_⟩,
    (hkeeps "Ann" (states_selecting _)).2 fun _ => by decide⟩
  cases hw
  rfl

/-- **A text with more than a hundred letters does not keep them.** -/
theorem selecting_long_text : ∃ s w, (selecting s).States (.string s) (.request ⟨0⟩) ∧
    (selecting s).writeRequest? .db2 ⟨0⟩ = some w ∧ w.params = [.string s] ∧
    w.sql = "SELECT CAST(? AS NVARCHAR(100)) FROM SYSIBM.SYSDUMMY1" ∧ s.length = 101 ∧
    declaredLength? "NVARCHAR(100)" = some 100 ∧ ¬ CastKeeps .db2 s := by
  have hlength : (String.ofList (List.replicate 101 'a')).length = 101 := by
    rw [String.length_ofList, List.length_replicate]
  refine ⟨String.ofList (List.replicate 101 'a'), _, states_selecting _, rfl, rfl, rfl, hlength,
    by decide, fun h => ?_⟩
  have hshort := (castKeeps_iff (d := .db2) rfl _).1 h rfl
  rw [hlength] at hshort
  omega

end Graph

end EntityQuery.Sql
