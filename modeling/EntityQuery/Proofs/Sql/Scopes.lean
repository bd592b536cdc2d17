import EntityQuery.Proofs.Sql.Nesting
import EntityQuery.Sql.Text

/-!
Which names a statement reads, and whether they are declared where it reads them.

* A name is read if a dot follows it. A name after ` AS ` is declared; in updates and deletes these are
  the names of sources alone. A declaration reaches over the innermost brackets around it, with all
  brackets inside them: over the whole statement, or over the sub-select that it stands in.
* `Scoped`: the brackets of a text match, and every name that it reads is declared in reach.
* `Scoping ps ds P`: pieces inside a text declare the names `ds`, and the other names that they read
  satisfy `P`. There is one lemma for each way to put pieces together, and one for the text of a node.
-/

namespace EntityQuery.Sql

/-! ### Reading a text -/

/-- The names that are declared and read between two brackets. -/
structure Frame where
  declared : List String := []
  read : List String := []

namespace Frame

/-- The names that are read and not declared. -/
def free (f : Frame) : List String := f.read.filter fun x => !f.declared.contains x

def add (f : Frame) (declared read : List String) : Frame :=
  ⟨f.declared ++ declared, f.read ++ read⟩

end Frame

/-- A text as far as it is read. -/
structure Scan where
  /-- The innermost open bracket, and those around it. -/
  frame : Frame := {}
  outer : List Frame := []
  /-- The name that was read right before. -/
  last : Option String := none
  /-- Whether a name is declared next. -/
  naming : Bool := false

namespace Scan

def enter (σ : Scan) : Scan := { σ with frame := {}, outer := σ.frame :: σ.outer }

/-- What brackets read and do not declare is read by what is around them. -/
def leave (σ : Scan) : Scan :=
  match σ.outer with
  | around :: outer => { σ with frame := around.add [] σ.frame.free, outer }
  | [] => σ

def mark (σ : Scan) (c : Char) : Scan :=
  if c = '(' then σ.enter else if c = ')' then σ.leave else σ

/-- A dot after a name. -/
def qualify (σ : Scan) (text : List Char) : Scan :=
  match σ.last, text with
  | some x, '.' :: _ => { σ with frame := σ.frame.add [] [x] }
  | _, _ => σ

/-- Reads a piece. -/
def step (σ : Scan) : Piece → Scan
  | .text t =>
    { t.toList.foldl mark (σ.qualify t.toList) with
      last := none, naming := " AS ".toList.isSuffixOf t.toList }
  | .name x =>
    if σ.naming then { σ with frame := σ.frame.add [x] [], last := none, naming := false }
    else { σ with last := some x }
  | .param _ | .typed _ | .endless => { σ with last := none, naming := false }

end Scan

/-- Every name that a text reads is declared in reach. -/
def Scoped (ps : List Piece) : Prop :=
  let σ := ps.foldl Scan.step {}
  σ.outer = [] ∧ σ.frame.free = []

instance (ps : List Piece) : Decidable (Scoped ps) := by unfold Scoped; infer_instance

/-! ### Parts of a text -/

/-- Pieces declare some names, and the other names that they read are known around them. -/
def Scoping (ps : List Piece) (ds : List String) (P : String → Prop) : Prop :=
  ∃ rs : List String, (∀ x ∈ rs, P x) ∧ ∀ σ : Scan, σ.naming = false →
    ∃ last, ps.foldl Scan.step σ = { σ with frame := σ.frame.add ds rs, last, naming := false }

/-- Words without brackets, between names. -/
structure Word (t : String) : Prop where
  dot : t.toList.head? ≠ some '.'
  naming : " AS ".toList.isSuffixOf t.toList = false
  marks : ∀ σ : Scan, t.toList.foldl Scan.mark σ = σ

/-- Words with an open bracket. -/
structure Opening (t : String) : Prop where
  dot : t.toList.head? ≠ some '.'
  naming : " AS ".toList.isSuffixOf t.toList = false
  marks : ∀ σ : Scan, t.toList.foldl Scan.mark σ = σ.enter

/-- Words with a bracket that closes. -/
structure Closing (t : String) : Prop where
  dot : t.toList.head? ≠ some '.'
  naming : " AS ".toList.isSuffixOf t.toList = false
  marks : ∀ σ : Scan, t.toList.foldl Scan.mark σ = σ.leave

lemma Frame.add_nil (f : Frame) : f.add [] [] = f := by simp [Frame.add]

lemma Frame.add_add (f : Frame) (ds rs es ts : List String) :
    (f.add ds rs).add es ts = f.add (ds ++ es) (rs ++ ts) := by simp [Frame.add]

/-- A text that starts with no dot reads nothing. -/
lemma Scan.qualify_eq_self (σ : Scan) {text : List Char} (h : text.head? ≠ some '.') :
    σ.qualify text = σ := by
  unfold qualify
  split
  · simp at h
  · rfl

lemma scan_text {t : String} {σ τ : Scan} (hdot : t.toList.head? ≠ some '.')
    (hnaming : " AS ".toList.isSuffixOf t.toList = false) (hmarks : t.toList.foldl Scan.mark σ = τ) :
    σ.step (.text t) = { τ with last := none, naming := false } := by
  rw [Scan.step, σ.qualify_eq_self hdot, hmarks, hnaming]

namespace Scoping

variable {ps qs : List Piece} {ds es : List String} {P Q : String → Prop}

lemma nil : Scoping [] [] P := by
  refine ⟨[], by simp, fun σ hσ => ⟨σ.last, ?_⟩⟩
  rw [List.foldl_nil, Frame.add_nil, ← hσ]

lemma append (hp : Scoping ps ds P) (hq : Scoping qs es P) : Scoping (ps ++ qs) (ds ++ es) P := by
  obtain ⟨rs, hrs, hp⟩ := hp
  obtain ⟨ts, hts, hq⟩ := hq
  refine ⟨rs ++ ts, fun x hx => (List.mem_append.1 hx).elim (hrs x) (hts x), fun σ hσ => ?_⟩
  obtain ⟨last, hlast⟩ := hp σ hσ
  obtain ⟨last', hlast'⟩ := hq { σ with frame := σ.frame.add ds rs, last, naming := false } rfl
  refine ⟨last', ?_⟩
  rw [List.foldl_append, hlast, hlast', Frame.add_add]

lemma mono (h : Scoping ps ds P) (hPQ : ∀ x, P x → Q x) : Scoping ps ds Q := by
  obtain ⟨rs, hrs, h⟩ := h
  exact ⟨rs, fun x hx => hPQ x (hrs x hx), h⟩

lemma text {t : String} (ht : Word t) : Scoping [.text t] [] P := by
  refine ⟨[], by simp, fun σ _ => ⟨none, ?_⟩⟩
  rw [List.foldl_cons, List.foldl_nil, scan_text ht.dot ht.naming (ht.marks σ), Frame.add_nil]

lemma name (x : String) : Scoping [.name x] [] P := by
  refine ⟨[], by simp, fun σ hσ => ⟨some x, ?_⟩⟩
  simp [Scan.step, hσ, Frame.add_nil]

lemma param (v : Value) : Scoping [.param v] [] P :=
  ⟨[], by simp, fun σ _ => ⟨none, by simp [Scan.step, Frame.add_nil]⟩⟩

lemma typed (v : Value) : Scoping [.typed v] [] P :=
  ⟨[], by simp, fun σ _ => ⟨none, by simp [Scan.step, Frame.add_nil]⟩⟩

/-- A text before other pieces. -/
lemma cons {t : String} (ht : Word t) (hp : Scoping ps ds P) : Scoping (.text t :: ps) ds P :=
  (text ht).append hp

/-- A name of which a column is read. -/
lemma column {x : String} (hx : P x) (c : String) : Scoping (Piece.qualified x c) [] P := by
  refine ⟨[x], by simpa using hx, fun σ hσ => ⟨some c, ?_⟩⟩
  have hdot : " AS ".toList.isSuffixOf ".".toList = false := rfl
  rw [Piece.qualified, List.foldl_cons, List.foldl_cons, List.foldl_cons, List.foldl_nil]
  simp only [Scan.step, hσ, hdot, Bool.false_eq_true, if_false]
  rfl

/-- A name of which all columns are read. -/
lemma star {x : String} (hx : P x) : Scoping [.name x, .text ("." ++ allColumns)] [] P := by
  refine ⟨[x], by simpa using hx, fun σ hσ => ⟨none, ?_⟩⟩
  have hdot : " AS ".toList.isSuffixOf ("." ++ allColumns).toList = false := rfl
  rw [List.foldl_cons, List.foldl_cons, List.foldl_nil]
  simp only [Scan.step, hσ, hdot, Bool.false_eq_true, if_false]
  rfl

/-- A name is declared. -/
lemma declare (table x : String) : Scoping [.name table, .text " AS ", .name x] [x] P := by
  refine ⟨[], by simp, fun σ hσ => ⟨none, ?_⟩⟩
  simp [Scan.step, hσ, Scan.qualify, Scan.mark]

/-- What is declared in brackets is not seen around them. -/
lemma bracket {o c : String} (ho : Opening o) (hc : Closing c)
    (hp : Scoping ps ds fun x => P x ∨ x ∈ ds) : Scoping (.text o :: (ps ++ [.text c])) [] P := by
  obtain ⟨rs, hrs, hp⟩ := hp
  refine ⟨rs.filter fun x => !ds.contains x, fun x hx => ?_, fun σ _ => ⟨none, ?_⟩⟩
  · obtain ⟨hx, hds⟩ := List.mem_filter.1 hx
    exact (hrs x hx).resolve_right (by simpa using hds)
  · obtain ⟨last, hlast⟩ := hp { σ.enter with last := none, naming := false } rfl
    rw [List.foldl_cons, scan_text ho.dot ho.naming (ho.marks σ), List.foldl_append, hlast,
      List.foldl_cons, List.foldl_nil, scan_text hc.dot hc.naming (hc.marks _)]
    simp [Scan.leave, Scan.enter, Frame.add, Frame.free]

/-- Nothing but what the pieces do to a scan counts. -/
lemma congr (hp : Scoping ps ds P) (h : ∀ σ, qs.foldl Scan.step σ = ps.foldl Scan.step σ) :
    Scoping qs ds P := by
  obtain ⟨rs, hrs, hp⟩ := hp
  exact ⟨rs, hrs, fun σ hσ => by rw [h]; exact hp σ hσ⟩

/-- Several parts one after the other. -/
lemma flatMap {α : Type} {f : α → List Piece} {g : α → String} {as : List α}
    (h : ∀ a ∈ as, Scoping (f a) [g a] P) : Scoping (as.flatMap f) (as.map g) P := by
  induction as with
  | nil => exact nil
  | cons a as ih =>
    exact (h a List.mem_cons_self).append (ih fun b hb => h b (List.mem_cons_of_mem _ hb))

lemma commas {pss : List (List Piece)} (h : ∀ ps ∈ pss, Scoping ps [] P) :
    Scoping (Piece.commas pss) [] P := by
  induction pss with
  | nil => exact nil
  | cons ps pss ih =>
    cases pss with
    | nil => exact h ps List.mem_cons_self
    | cons qs pss =>
      have hcomma : Word ", " := ⟨by decide, by decide, fun _ => rfl⟩
      have hrest := ih fun rs hrs => h rs (List.mem_cons_of_mem _ hrs)
      exact (h ps List.mem_cons_self).append (cons hcomma hrest)

/-- A text all of whose names are declared outside of brackets. -/
lemma toScoped (h : Scoping ps ds (· ∈ ds)) : Scoped ps := by
  obtain ⟨rs, hrs, h⟩ := h
  obtain ⟨last, hlast⟩ := h {} rfl
  rw [Scoped, hlast]
  refine ⟨rfl, ?_⟩
  simpa [Frame.free, Frame.add] using hrs

end Scoping

/-! ### Values -/

/-- A source is read by a node or below it. -/
def Graph.Reads (g : Graph) (n : NodeId) (a : AliasId) : Prop :=
  ∃ m, g.Below n m ∧ (g.node m).source? = some a

namespace Writer

variable {w : Writer} {P : String → Prop}

lemma scoping_column {a : Alias} (ha : P a.name) (c : String) : Scoping (column a c) [] P := by
  unfold column
  split
  · exact .star ha
  · exact .column ha c

lemma scoping_row {a : Alias} (ha : P a.name) : Scoping (row a) [] P := by
  unfold row
  split
  · exact .column ha _
  · exact .star ha

lemma scoping_const (v : Value) : Scoping (const v) [] P := by
  unfold const
  split
  · exact .text ⟨by decide, by decide, fun _ => rfl⟩
  · exact .param v

lemma scoping_typed {n : NodeId} (hn : Scoping (w.value n) [] P) : Scoping (w.typed n) [] P := by
  unfold typed
  split
  · split
    · exact hn
    · exact .typed _
  · exact hn

/-- A value between words that are no brackets. -/
lemma scoping_between {ps qs : List Piece} {t : String} (ht : Word t) (hp : Scoping ps [] P)
    (hq : Scoping qs [] P) : Scoping (ps ++ .text t :: qs) [] P := hp.append (.cons ht hq)

/-- Values in brackets, where nothing is declared. -/
lemma scoping_bracket {o c : String} (ho : Opening o) (hc : Closing c) {ps : List Piece}
    (hp : Scoping ps [] P) : Scoping (.text o :: (ps ++ [.text c])) [] P :=
  .bracket ho hc (hp.mono fun _ hx => .inl hx)

lemma scoping_binary {op : BinaryOp} {l r : NodeId} (hl : Scoping (w.value l) [] P)
    (hr : Scoping (w.value r) [] P) : Scoping (w.binary op l r) [] P := by
  have hsymbol : Word (" " ++ op.symbol ++ " ") := by
    refine ⟨?_, ?_, ?_⟩ <;> cases op <;> first | decide +kernel | exact fun _ => rfl
  unfold binary
  split
  · have htest : Scoping (w.value (if (w.graph.node l).isNull then r else l)) [] P := by
      split
      · exact hr
      · exact hl
    refine scoping_bracket ⟨by decide, by decide, fun _ => rfl⟩ ?_ htest
    split <;> exact ⟨by decide, by decide, fun _ => rfl⟩
  · split
    · refine scoping_bracket ?_ ?_ (scoping_between ?_ (scoping_typed hl) (scoping_typed hr)) <;>
        cases w.dialect <;> exact ⟨by decide, by decide, fun _ => rfl⟩
    · exact scoping_bracket ⟨by decide, by decide, fun _ => rfl⟩ ⟨by decide, by decide, fun _ => rfl⟩
        (scoping_between ⟨by decide, by decide, fun _ => rfl⟩ hl hr)
    · exact scoping_bracket ⟨by decide, by decide, fun _ => rfl⟩ ⟨by decide, by decide, fun _ => rfl⟩
        (scoping_between hsymbol hl hr)

lemma scoping_unary {op : UnaryOp} {operand : Option NodeId}
    (h : ∀ n ∈ operand, Scoping (w.value n) [] P) : Scoping (w.unary op operand) [] P := by
  have hoperand : Scoping (operand.elim [] w.value) [] P := by
    cases operand with
    | none => exact .nil
    | some n => exact h n rfl
  unfold unary
  split
  · exact .cons ⟨by decide, by decide, fun _ => rfl⟩ hoperand
  · exact .cons ⟨by decide, by decide, fun _ => rfl⟩ hoperand
  · refine scoping_bracket (o := op.function?.getD "" ++ "(") ?_ ⟨by decide, by decide, fun _ => rfl⟩ ?_
    · cases op <;> exact ⟨by decide, by decide, fun _ => rfl⟩
    · cases operand with
      | none => exact .text ⟨by decide, by decide, fun _ => rfl⟩
      | some n => exact h n rfl

/-- The text of a node reads the source of the node and what its children read. -/
lemma scoping_node {x : Node} (hsource : ∀ a, x.source? = some a → P (w.graph.aliasOf a).name)
    (hchildren : ∀ c ∈ x.children, Scoping (w.value c) [] P) (hsub : ∀ r, x ≠ .sub r) :
    Scoping (w.node x) [] P := by
  cases x with
  | column a name => exact scoping_column (hsource a rfl) name
  | row a => exact scoping_row (hsource a rfl)
  | const v => exact scoping_const v
  | unary op operand =>
    exact scoping_unary fun n hn => hchildren n (Option.mem_toList.2 hn)
  | binary op l r =>
    exact scoping_binary (hchildren l (by simp [Node.children])) (hchildren r (by simp [Node.children]))
  | isIn item vs =>
    have hitem := hchildren item (by simp [Node.children])
    have hvalues : Scoping (Piece.commas (vs.map w.value)) [] P := by
      refine .commas fun ps hps => ?_
      obtain ⟨v, hv, rfl⟩ := List.mem_map.1 hps
      exact hchildren v (by simp [Node.children, hv])
    cases vs with
    | nil => exact .text ⟨by decide, by decide, fun _ => by
        simp [Scan.mark, Scan.enter, Scan.leave, Frame.add, Frame.free]⟩
    | cons v vs =>
      -- two brackets are closed at once
      have hdouble : ∀ σ : Scan, σ.step (.text "))") = (σ.step (.text ")")).step (.text ")") := by
        rintro ⟨frame, outer, last, naming⟩
        rw [scan_text (by decide) rfl rfl, scan_text (by decide) rfl rfl, scan_text (by decide) rfl rfl]
        cases outer with
        | nil => rfl
        | cons around outer => cases outer <;> rfl
      have hinner := scoping_bracket (o := " IN (") (c := ")") ⟨by decide, by decide, fun _ => rfl⟩
        ⟨by decide, by decide, fun _ => rfl⟩ hvalues
      refine (scoping_bracket (o := "(") (c := ")") ⟨by decide, by decide, fun _ => rfl⟩
        ⟨by decide, by decide, fun _ => rfl⟩ (hitem.append hinner)).congr fun σ => ?_
      simp [node, List.foldl_append, hdouble]
  | cond t y n =>
    have hthen : Word " THEN " := ⟨by decide, by decide, fun _ => rfl⟩
    have helse : Word " ELSE " := ⟨by decide, by decide, fun _ => rfl⟩
    have hend : Word " END" := ⟨by decide, by decide, fun _ => rfl⟩
    have hall := scoping_between hthen (hchildren t (by simp [Node.children])) (scoping_between helse
      (scoping_typed (hchildren y (by simp [Node.children]))) (scoping_between hend
        (scoping_typed (hchildren n (by simp [Node.children]))) .nil))
    simpa [node] using Scoping.cons (t := "CASE WHEN ") ⟨by decide, by decide, fun _ => rfl⟩ hall
  | sub r => exact absurd rfl (hsub r)

end Writer

namespace Graph

variable {g : Graph}

lemma Reads.child {n c : NodeId} {a : AliasId} (hc : c ∈ (g.node n).children) (h : g.Reads c a) :
    g.Reads n a := by
  obtain ⟨m, hm, ha⟩ := h
  exact ⟨m, .head hc hm, ha⟩

lemma not_reads_of_leaf {n : NodeId} (hleaf : (g.node n).children = []) (hsource : (g.node n).source? = none)
    {a : AliasId} : ¬ g.Reads n a := by
  rintro ⟨m, hm, ha⟩
  rcases hm.cases_head with rfl | ⟨c, hc, -⟩
  · rw [hsource] at ha
    cases ha
  · rw [hleaf] at hc
    cases hc

/-- **The text of a value reads the sources below its node**, and declares nothing, if no request is below
it. -/
theorem scoping_readNodeWithin (ho : g.Ordered) (hsub : ∀ n r, g.node n ≠ .sub r) (d : Dialect) {fuel : Nat}
    (above : List RequestId) {n : NodeId} (hn : n.index < fuel) {P : String → Prop}
    (hP : ∀ a, g.Reads n a → P (g.aliasOf a).name) :
    Scoping (g.readNodeWithin (g.writing d) fuel above n) [] P := by
  induction fuel generalizing n with
  | zero => exact absurd hn (Nat.not_lt_zero _)
  | succ fuel ih =>
    rw [readNodeWithin]
    refine Writer.scoping_node (w := ⟨g, d, _, _⟩) (fun a ha => hP a ⟨n, .refl, ha⟩) (fun c hc => ?_)
      (hsub n)
    have hlt := ho n c hc
    exact ih (by omega) fun a ha => hP a (ha.child hc)

end Graph

/-- What stays outside of a sub-select reads the target of a statement alone: the assigned values, and
without a key by which a sub-select picks rows also the condition. -/
structure Graph.Detached (g : Graph) (q : Request) (target : AliasId) : Prop where
  values : ∀ s ∈ q.assignments, ∀ a, g.Reads s.value a → a = target
  filter : (g.aliasOf target).idColumn = none → ∀ n ∈ q.filter, ∀ a, g.Reads n a → a = target

/-! ### Clauses -/

/-- Whether a request writes to its table. -/
def RequestKind.writes : RequestKind → Bool
  | .update | .delete => true
  | .select | .insertSelect => false

namespace Writer

variable {w : Writer} {q : Request} {P : String → Prop}

/-- The name of a source. -/
def nameOf (w : Writer) (a : AliasId) : String := (w.graph.aliasOf a).name

lemma scoping_source {a : AliasId} (ha : ∀ r, (w.graph.aliasOf a).origin ≠ .request r) :
    Scoping (w.source a) [w.nameOf a] P := by
  unfold source
  dsimp only
  split
  · exact .declare _ _
  · next r hr => exact absurd hr (ha r)

/-- The text of a value reads what its node reads. -/
def Plain (w : Writer) (n : NodeId) : Prop :=
  ∀ P : String → Prop, (∀ a, w.graph.Reads n a → P (w.nameOf a)) → Scoping (w.value n) [] P

lemma scoping_after {keyword : String} (hk : Word keyword) {n : Option NodeId}
    (h : ∀ m ∈ n, Scoping (w.value m) [] P) : Scoping (w.after keyword n) [] P := by
  cases n with
  | none => exact .nil
  | some m => exact .cons hk (h m rfl)

lemma scoping_assignedName (a : Assignment) : Scoping (w.assignedName a) [] P := by
  unfold assignedName
  split
  · exact .name _
  · exact .nil

/-- The rows that a statement writes, and where it reads their values. -/
structure Placed (w : Writer) (q : Request) (target : AliasId) : Prop where
  table : ∀ a ∈ target :: q.joins.map Join.source, ∀ r, (w.graph.aliasOf a).origin ≠ .request r
  plain : ∀ n ∈ q.clauseNodes, w.Plain n
  reads : ∀ n ∈ q.clauseNodes, ∀ a, w.graph.Reads n a → a ∈ target :: q.joins.map Join.source
  /-- A join reads its own source and those before it. -/
  chained : ∀ k, ∀ j ∈ q.joins.take k, ∀ a, w.graph.Reads j.condition a →
    a ∈ target :: (q.joins.take k).map Join.source

lemma nameOf_mem_sources (w : Writer) (q : Request) (target : AliasId) :
    ∀ a ∈ target :: q.joins.map Join.source,
      w.nameOf a ∈ w.nameOf target :: q.joins.map fun j => w.nameOf j.source := by
  simpa using fun j hj => Or.inr ⟨j, hj, rfl⟩

namespace Placed

variable {target : AliasId} (h : w.Placed q target)
include h

/-- Names of the target and of joined sources. -/
lemma value {n : NodeId} (hn : n ∈ q.clauseNodes)
    (hP : ∀ a ∈ target :: q.joins.map Join.source, P (w.nameOf a)) : Scoping (w.value n) [] P :=
  h.plain n hn P fun a ha => hP a (h.reads n hn a ha)

/-- The joins that come first declare their sources, and read nothing but these and the target. -/
lemma joins (k : Nat) (hP : ∀ a ∈ target :: (q.joins.take k).map Join.source, P (w.nameOf a)) :
    Scoping (w.joins { q with joins := q.joins.take k })
      ((q.joins.take k).map fun j => w.nameOf j.source) P := by
  unfold Writer.joins
  refine .flatMap fun j hj => ?_
  have hmem : j ∈ q.joins := List.mem_of_mem_take hj
  have hkeyword : Word (" " ++ j.kind.keyword ++ " ") := by
    cases j.kind <;> exact ⟨by decide, by decide, fun _ => rfl⟩
  have hsource : Scoping (w.source j.source) [w.nameOf j.source] P :=
    scoping_source (h.table _ (List.mem_cons_of_mem _ (List.mem_map_of_mem hmem)))
  have hcondition : Scoping (w.value j.condition) [] P :=
    h.plain j.condition (Request.mem_clauseNodes.2 (.inl ⟨j, hmem, rfl⟩)) P fun a ha =>
      hP a (h.chained k j hj a ha)
  exact .cons hkeyword (hsource.append (.cons ⟨by decide, by decide, fun _ => rfl⟩ hcondition))

/-- All joins, of which the names are in reach. -/
lemma allJoins (hP : ∀ a ∈ target :: q.joins.map Join.source, P (w.nameOf a)) :
    Scoping (w.joins q) (q.joins.map fun j => w.nameOf j.source) P := by
  have hjoins := h.joins q.joins.length (P := P) (by rwa [List.take_length])
  rwa [List.take_length] at hjoins

lemma whereClause (hP : ∀ a ∈ target :: q.joins.map Join.source, P (w.nameOf a)) :
    Scoping (w.whereClause q) [] P :=
  scoping_after ⟨by decide, by decide, fun _ => rfl⟩ fun m hm =>
    h.value (Request.mem_clauseNodes.2 (.inr (.inr (.inl hm)))) hP

/-- Assigned values read what the sources in reach allow. -/
lemma setClause (withSource : Bool)
    (hcolumn : ∀ s ∈ q.assignments, withSource = true → ∀ a, w.graph.Reads s.column a → P (w.nameOf a))
    (hvalue : ∀ s ∈ q.assignments, ∀ a, w.graph.Reads s.value a → P (w.nameOf a)) :
    Scoping (w.setClause q withSource) [] P := by
  refine .cons ⟨by decide, by decide, fun _ => rfl⟩ (.commas fun ps hps => ?_)
  obtain ⟨s, hs, rfl⟩ := List.mem_map.1 hps
  have hclause : ∀ n, n = s.column ∨ n = s.value → n ∈ q.clauseNodes := fun n hn =>
    Request.mem_clauseNodes.2 (.inr (.inr (.inr (.inr (.inr (.inr ⟨s, hs, hn⟩))))))
  refine scoping_between ⟨by decide, by decide, fun _ => rfl⟩ ?_
    (h.plain s.value (hclause _ (.inr rfl)) P (hvalue s hs))
  split
  · next hsource => exact h.plain s.column (hclause _ (.inl rfl)) P (hcolumn s hs hsource)
  · exact scoping_assignedName s

lemma source : Scoping (w.source target) [w.nameOf target] P :=
  scoping_source (h.table target List.mem_cons_self)

/-- The sub-select of a restriction declares the joined sources for itself. -/
lemma restriction (htarget : P (w.nameOf target)) (hown : w.graph.Detached q target) :
    Scoping (w.restriction q target) [] P := by
  unfold Writer.restriction
  dsimp only
  split
  · next key j rest hid hjoins =>
    obtain ⟨ds, hds⟩ : ∃ ds, ds = w.nameOf target :: q.joins.map fun j => w.nameOf j.source := ⟨_, rfl⟩
    have hinside : ∀ a ∈ target :: q.joins.map Join.source, P (w.nameOf a) ∨ w.nameOf a ∈ ds := by
      intro a ha
      rw [hds]
      rcases List.mem_cons.1 ha with rfl | ha
      · exact .inr List.mem_cons_self
      · obtain ⟨j, hj, rfl⟩ := List.mem_map.1 ha
        exact .inr (List.mem_cons_of_mem _ (List.mem_map_of_mem hj))
    have hselect : Scoping (Piece.qualified (w.nameOf target) key ++ .text " FROM " :: (w.source target ++
        (w.joins q ++ w.whereClause q))) ds fun x => P x ∨ x ∈ ds := by
      have hfrom := h.source.append ((h.allJoins (P := fun x => P x ∨ x ∈ ds) hinside).append
        (h.whereClause hinside))
      rw [List.append_nil, List.singleton_append, ← hds] at hfrom
      exact (Scoping.column (.inl htarget) key).append (.cons ⟨by decide, by decide, fun _ => rfl⟩ hfrom)
    have hin := Scoping.bracket (o := " IN (SELECT ") (c := ")") ⟨by decide, by decide, fun _ => rfl⟩
      ⟨by decide, by decide, fun _ => rfl⟩ hselect
    simpa [nameOf, List.append_assoc] using Scoping.cons (t := " WHERE ")
      ⟨by decide, by decide, fun _ => rfl⟩ ((Scoping.column htarget key).append hin)
  · next hneither =>
    refine scoping_after ⟨by decide, by decide, fun _ => rfl⟩ fun n hn => ?_
    have hclause : n ∈ q.clauseNodes := Request.mem_clauseNodes.2 (.inr (.inr (.inl hn)))
    refine h.plain n hclause P fun a ha => ?_
    suffices heq : a = target from heq ▸ htarget
    cases hid : (w.graph.aliasOf target).idColumn with
    | none => exact hown.filter hid n hn a ha
    | some key =>
      have hnil : q.joins = [] := by
        cases hjoins : q.joins with
        | nil => rfl
        | cons j rest => exact (hneither key j rest hid hjoins).elim
      simpa [hnil] using h.reads n hclause a ha

/-- **The FROM clause declares the sources one after the other**: no join reads a later source. -/
theorem scoped_joins (k : Nat) :
    Scoped (w.source target ++ w.joins { q with joins := q.joins.take k }) := by
  obtain ⟨ds, hds⟩ : ∃ ds, ds = w.nameOf target :: (q.joins.take k).map fun j => w.nameOf j.source :=
    ⟨_, rfl⟩
  have hjoins := h.source.append (h.joins k (P := (· ∈ ds)) fun a ha => ?_)
  · rw [List.singleton_append, ← hds] at hjoins
    exact hjoins.toScoped
  · rw [hds]
    rcases List.mem_cons.1 ha with rfl | ha
    · exact List.mem_cons_self
    · obtain ⟨j, hj, rfl⟩ := List.mem_map.1 ha
      exact List.mem_cons_of_mem _ (List.mem_map_of_mem hj)

variable (hown : w.dialect.writeStyle = .subquery → w.graph.Detached q target)
include hown

lemma scoped_delete : Scoped (w.delete q target) := by
  have hall := w.nameOf_mem_sources q target
  have hfrom : Scoped (.text "DELETE " :: .name (w.nameOf target) :: .text " FROM " ::
      (w.source target ++ (w.joins q ++ w.whereClause q))) := by
    have hrest := h.source.append ((h.allJoins hall).append (h.whereClause hall))
    rw [List.append_nil, List.singleton_append] at hrest
    exact (Scoping.cons ⟨by decide, by decide, fun _ => rfl⟩ ((Scoping.name (w.nameOf target)).append
      (.cons ⟨by decide, by decide, fun _ => rfl⟩ hrest))).toScoped
  unfold delete
  split
  · next hstyle =>
    have hrestriction : Scoping (w.restriction q target) [] (· ∈ [w.nameOf target]) :=
      h.restriction List.mem_cons_self (hown hstyle)
    exact (Scoping.cons ⟨by decide, by decide, fun _ => rfl⟩ (h.source.append hrestriction)).toScoped
  all_goals simpa [nameOf, List.append_assoc] using hfrom

lemma scoped_update : Scoped (w.update q target) := by
  have hall := w.nameOf_mem_sources q target
  have hset : ∀ withSource, Scoping (w.setClause q withSource) []
      (· ∈ w.nameOf target :: q.joins.map fun j => w.nameOf j.source) := by
    refine fun withSource => h.setClause withSource (fun s hs _ a ha => hall a ?_) fun s hs a ha => hall a ?_
    · exact h.reads s.column (Request.mem_clauseNodes.2
        (.inr (.inr (.inr (.inr (.inr (.inr ⟨s, hs, .inl rfl⟩))))))) a ha
    · exact h.reads s.value (Request.mem_clauseNodes.2
        (.inr (.inr (.inr (.inr (.inr (.inr ⟨s, hs, .inr rfl⟩))))))) a ha
  unfold update
  split
  · next hstyle =>
    -- the joined sources are out of reach for the assigned values
    have hvalues : ∀ s ∈ q.assignments, ∀ a, w.graph.Reads s.value a → w.nameOf a ∈ [w.nameOf target] := by
      intro s hs a ha
      rw [(hown hstyle).values s hs a ha]
      exact List.mem_cons_self
    have hassign : Scoping (w.setClause q false) [] (· ∈ [w.nameOf target]) :=
      h.setClause false (fun _ _ hfalse => by cases hfalse) hvalues
    have hrestriction : Scoping (w.restriction q target) [] (· ∈ [w.nameOf target]) :=
      h.restriction List.mem_cons_self (hown hstyle)
    have htext := h.source.append (hassign.append hrestriction)
    simpa [List.append_assoc] using (Scoping.cons (t := "UPDATE ") ⟨by decide, by decide, fun _ => rfl⟩
      htext).toScoped
  · have htext := h.source.append ((h.allJoins hall).append ((hset true).append (h.whereClause hall)))
    rw [List.append_nil, List.append_nil, List.singleton_append] at htext
    simpa [List.append_assoc] using (Scoping.cons (t := "UPDATE ") ⟨by decide, by decide, fun _ => rfl⟩
      htext).toScoped
  · have hfrom := h.source.append ((h.allJoins hall).append (h.whereClause hall))
    rw [List.append_nil, List.singleton_append] at hfrom
    have htext := (Scoping.name (w.nameOf target)).append ((hset false).append
      (.cons (t := " FROM ") ⟨by decide, by decide, fun _ => rfl⟩ hfrom))
    simpa [nameOf, List.append_assoc] using (Scoping.cons (t := "UPDATE ")
      ⟨by decide, by decide, fun _ => rfl⟩ htext).toScoped

/-- **An update or delete is well scoped** if its sources are tables and its clauses read nothing else.
Where joined tables are put into a sub-select, what stays outside may read the target alone. -/
theorem scoped_request (hkind : q.kind.writes = true) (htarget : (q.target <|> q.base) = some target) :
    Scoped (w.request q) := by
  unfold request
  rw [htarget]
  cases hq : q.kind with
  | update => exact h.scoped_update hown
  | delete => exact h.scoped_delete hown
  | select => simp [hq, RequestKind.writes] at hkind
  | insertSelect => simp [hq, RequestKind.writes] at hkind

end Placed

end Writer

end EntityQuery.Sql
