import EntityQuery.Proofs.Masking.Graph
import EntityQuery.Sql.Text

/-!
The text of a statement does not depend on the contents of its constants.

* Every clause of a masked graph has the pieces of the graph's clause with masked values.
* `writeRequest?_mask`: the text is the same, and the bound values are the masks of the values.
-/

namespace EntityQuery.Sql

/-! ### Pieces -/

namespace Piece

/-- A piece without the contents of its value. -/
def mask : Piece → Piece
  | .param v => .param v.mask
  | .typed v => .typed v.mask
  | p => p

@[simp] lemma mask_text (s : String) : mask (.text s) = .text s := rfl

@[simp] lemma mask_name (s : String) : mask (.name s) = .name s := rfl

@[simp] lemma isEndless_mask (p : Piece) : p.mask.isEndless = p.isEndless := by cases p <;> rfl

@[simp] lemma value?_mask (p : Piece) : p.mask.value? = p.value?.map Value.mask := by
  cases p <;> rfl

@[simp] lemma write_mask (d : Dialect) (index : Nat) (p : Piece) :
    p.mask.write d index = p.write d index := by cases p <;> simp [mask, write]

lemma texts_mask (d : Dialect) (ps : List Piece) (index : Nat) :
    texts d index (ps.map mask) = texts d index ps := by
  induction ps generalizing index with
  | nil => rfl
  | cons p ps ih => simp [texts, ih]

lemma sql_mask (d : Dialect) (ps : List Piece) : sql d (ps.map mask) = sql d ps := by
  rw [sql, texts_mask, sql]

lemma params_mask (ps : List Piece) : params (ps.map mask) = (params ps).map Value.mask := by
  rw [params, params, List.filterMap_map, List.map_filterMap]
  exact congrArg (List.filterMap · ps) (funext value?_mask)

@[simp] lemma commas_mask (pss : List (List Piece)) :
    commas (pss.map fun ps => ps.map mask) = (commas pss).map mask := by
  fun_induction commas pss with
  | case1 => rfl
  | case2 ps => rfl
  | case3 ps rest _ ih => simp_all [commas]

@[simp] lemma qualified_mask (source column : String) :
    (qualified source column).map mask = qualified source column := rfl

end Piece

/-! ### Clauses -/

namespace Writer

open Piece (commas qualified)

/-- A writer over the masked graph. -/
def mask (w : Writer) : Writer :=
  ⟨w.graph.mask, w.dialect, fun n => (w.value n).map Piece.mask,
    fun r => (w.query r).map Piece.mask⟩

variable (w : Writer)

@[simp] lemma graph_mask : w.mask.graph = w.graph.mask := rfl

@[simp] lemma dialect_mask : w.mask.dialect = w.dialect := rfl

@[simp] lemma value_mask (n : NodeId) : w.mask.value n = (w.value n).map Piece.mask := rfl

@[simp] lemma query_mask (r : RequestId) : w.mask.query r = (w.query r).map Piece.mask := rfl

@[simp] lemma typed_mask (n : NodeId) : w.mask.typed n = (w.typed n).map Piece.mask := by
  simp only [typed, graph_mask, Graph.node_mask]
  cases w.graph.node n with
  | const v => cases h : v.isNull <;> simp [Node.mask, h, Piece.mask]
  | _ => rfl

/-- Parts between commas, each of which is masked. -/
lemma commas_map_mask {α : Type} {f f' : α → List Piece} (h : ∀ a, f' a = (f a).map Piece.mask)
    (as : List α) : commas (as.map f') = (commas (as.map f)).map Piece.mask := by
  rw [← Piece.commas_mask, List.map_map]
  congr 2
  funext a
  exact h a

lemma unary_mask (op : UnaryOp) (o : Option NodeId) :
    w.mask.unary op o = (w.unary op o).map Piece.mask := by
  cases op <;> cases o <;> simp [unary]

lemma binary_mask (op : BinaryOp) (l r : NodeId) :
    w.mask.binary op l r = (w.binary op l r).map Piece.mask := by
  have htest : w.mask.isNullTest op l r = w.isNullTest op l r := by simp [isNullTest]
  unfold binary
  rw [htest]
  split
  · cases h : (w.graph.node l).isNull <;> simp [h]
  · cases op <;> simp

lemma node_mask (n : Node) : w.mask.node n.mask = (w.node n).map Piece.mask := by
  match n with
  | .column a name =>
    simp only [node, Node.mask, column, graph_mask, Graph.aliasOf_mask]
    split <;> simp
  | .row a =>
    simp only [node, Node.mask, row, graph_mask, Graph.aliasOf_mask]
    split <;> simp
  | .const v =>
    simp only [node, Node.mask, const, Value.isNull_mask]
    split <;> rfl
  | .unary op o => exact w.unary_mask op o
  | .binary op l r => exact w.binary_mask op l r
  | .isIn e [] => rfl
  | .isIn e (v :: vs) =>
    simp only [node, Node.mask, commas_map_mask w.value_mask (v :: vs), value_mask]
    simp
  | .cond t y n => simp [node, Node.mask]
  | .sub r => simp [node, Node.mask]

@[simp] lemma source_mask (a : AliasId) : w.mask.source a = (w.source a).map Piece.mask := by
  simp only [source, graph_mask, Graph.aliasOf_mask]
  split <;> simp

@[simp] lemma joins_mask (q : Request) : w.mask.joins q = (w.joins q).map Piece.mask := by
  simp [joins, List.map_flatMap]

@[simp] lemma fromClause_mask (q : Request) :
    w.mask.fromClause q = (w.fromClause q).map Piece.mask := by
  simp only [fromClause, dialect_mask]
  split
  · simp
  · split <;> simp

@[simp] lemma after_mask (keyword : String) (o : Option NodeId) :
    w.mask.after keyword o = (w.after keyword o).map Piece.mask := by
  cases o <;> simp [after]

lemma afterAll_mask {α : Type} {f f' : α → List Piece} (h : ∀ a, f' a = (f a).map Piece.mask)
    (keyword : String) (as : List α) :
    afterAll keyword (as.map f') = (afterAll keyword (as.map f)).map Piece.mask := by
  simp only [afterAll, commas_map_mask h as, List.isEmpty_map]
  split <;> simp

@[simp] lemma whereClause_mask (q : Request) :
    w.mask.whereClause q = (w.whereClause q).map Piece.mask := w.after_mask _ _

@[simp] lemma orderClause_mask (q : Request) :
    w.mask.orderClause q = (w.orderClause q).map Piece.mask := by
  refine afterAll_mask (fun o => ?_) _ _
  cases o.ascending <;> simp

@[simp] lemma restrictions_mask (q : Request) :
    w.mask.restrictions q = (w.restrictions q).map Piece.mask := by
  simp [restrictions, afterAll_mask w.value_mask]

lemma select_mask (q : Request) (values : List Piece) :
    w.mask.select q (values.map Piece.mask) = (w.select q values).map Piece.mask := by
  unfold select
  rw [fromClause_mask, restrictions_mask]
  dsimp only [dialect_mask]
  cases q.distinct <;> simp [Function.comp_def]

@[simp] lemma selection_mask (q : Request) :
    w.mask.selection q = (w.selection q).map Piece.mask := by
  unfold selection
  split
  · rfl
  · refine commas_map_mask (fun i => ?_) _
    cases i.label <;> simp

@[simp] lemma assignedName_mask (a : Assignment) :
    w.mask.assignedName a = (w.assignedName a).map Piece.mask := by
  simp only [assignedName, graph_mask, Graph.node_mask]
  cases w.graph.node a.column <;> rfl

@[simp] lemma setClause_mask (q : Request) (withSource : Bool) :
    w.mask.setClause q withSource = (w.setClause q withSource).map Piece.mask := by
  simp only [setClause, List.map_cons, Piece.mask_text]
  congr 1
  refine commas_map_mask (fun a => ?_) _
  cases withSource <;> simp

@[simp] lemma restriction_mask (q : Request) (target : AliasId) :
    w.mask.restriction q target = (w.restriction q target).map Piece.mask := by
  simp only [restriction, graph_mask, Graph.aliasOf_mask]
  split <;> simp

/-! ### Requests -/

lemma delete_mask (q : Request) (target : AliasId) :
    w.mask.delete q target = (w.delete q target).map Piece.mask := by
  cases h : w.dialect.writeStyle <;> simp [delete, h]

lemma update_mask (q : Request) (target : AliasId) :
    w.mask.update q target = (w.update q target).map Piece.mask := by
  cases h : w.dialect.writeStyle <;> simp [update, h]

lemma insert_mask (q : Request) (target : AliasId) :
    w.mask.insert q target = (w.insert q target).map Piece.mask := by
  have hvalues := commas_map_mask (fun a : Assignment => w.typed_mask a.value) q.assignments
  simp only [insert, hvalues, select_mask, commas_map_mask w.assignedName_mask, graph_mask,
    Graph.aliasOf_mask]
  cases (w.graph.aliasOf target).origin <;> simp

lemma request_mask (q : Request) : w.mask.request q = (w.request q).map Piece.mask := by
  unfold request
  split
  · rw [selection_mask, select_mask]
  · exact w.delete_mask q _
  · exact w.update_mask q _
  · exact w.insert_mask q _
  · rfl

end Writer

/-! ### Statements -/

/-- A statement without the contents of its values. -/
def Written.mask (w : Written) : Written := { w with params := w.params.map Value.mask }

lemma Written.ofPieces?_mask (d : Dialect) (ps : List Piece) :
    ofPieces? d (ps.map Piece.mask) = (ofPieces? d ps).map mask := by
  have hany : (ps.map Piece.mask).any Piece.isEndless = ps.any Piece.isEndless := by
    simp [List.any_map, Function.comp_def]
  unfold ofPieces?
  rw [hany]
  split
  · rfl
  · rw [Piece.sql_mask, Piece.params_mask]
    rfl

namespace Graph

/-- **The text of a request does not depend on the contents of its constants.** -/
theorem writeRequest?_mask (g : Graph) (d : Dialect) (r : RequestId) :
    g.mask.writeRequest? d r = (g.writeRequest? d r).map Written.mask := by
  have hquery : g.mask.readRequest (g.mask.writing d) r =
      (g.readRequest (g.writing d) r).map Piece.mask := by
    rw [readRequest, readRequest, height_mask]
    refine (readWithin_related (P := fun (x y : List Piece) => y = x.map Piece.mask)
      (Q := fun (x y : List Piece) => y = x.map Piece.mask) ?_ ?_ rfl rfl g.height []).2 r
    · intro part part' query query' n hpart hquery
      obtain rfl : part' = _ := funext hpart
      obtain rfl : query' = _ := funext hquery
      rw [Graph.node_mask]
      exact Writer.node_mask ⟨g, d, part, query⟩ (g.node n)
    · intro part part' query query' r hpart hquery
      obtain rfl : part' = _ := funext hpart
      obtain rfl : query' = _ := funext hquery
      exact Writer.request_mask ⟨g, d, part, query⟩ (g.request r)
  unfold writeRequest?
  rw [← Written.ofPieces?_mask]
  exact congrArg _ hquery

end Graph

end EntityQuery.Sql
