import EntityQuery.Proofs.Sql.Lexer
import EntityQuery.Proofs.Sql.Nesting
import EntityQuery.Sql.Text
import Mathlib.Tactic.IntervalCases

/-!
The marks in the text of a statement.

* Every clause that is written is `Spaced`, if the values and requests in it are: names and marks
  are always followed by a separator, and only names and marks depend on the graph.
* `lex_writeRequest?`: the text of a request in an acyclic graph can be read back, and its marks are
  those of its parameters, one by one and in order.
-/

namespace EntityQuery.Sql

namespace Piece

variable {d : Dialect} {word : Bool} {ps qs : List Piece} {s : String}

/-! ### Composition -/

lemma Spaced.weaken : ∀ {ps : List Piece} {word : Bool}, Spaced d true ps → Spaced d word ps
  | [], _, _ => trivial
  | .text s :: ps, word, h => by
    refine ⟨h.1, fun _ => h.2.1 rfl, ?_⟩
    have hrest := h.2.2
    rw [Bool.true_and] at hrest
    cases hs : s.isEmpty <;> rw [hs] at hrest
    · rw [Bool.and_false]; exact hrest
    · exact hrest.weaken
  | .name _ :: _, _, h | .param _ :: _, _, h | .typed _ :: _, _, h | .endless :: _, _, h => by
    simp [Spaced] at h

lemma Spaced.append : ∀ {ps : List Piece} {word : Bool}, Spaced d word ps → Spaced d true qs →
    Spaced d word (ps ++ qs)
  | [], _, _, hq => hq.weaken
  | .text _ :: _, _, hp, hq => ⟨hp.1, hp.2.1, hp.2.2.append hq⟩
  | .name _ :: _, _, hp, hq | .param _ :: _, _, hp, hq | .typed _ :: _, _, hp, hq =>
    ⟨hp.1, hp.2.append hq⟩
  | .endless :: _, _, hp, _ => absurd hp (by simp [Spaced])

/-- Fixed words, plain in all dialects. -/
def isFixed (s : String) : Bool := !s.isEmpty && Dialect.all.all fun d => s.toList.all d.isPlain

/-- Fixed words that part a name or mark from what follows. -/
def isSeparator (s : String) : Bool := isFixed s && s.toList.head?.all fun c => !c.isAlphanum

lemma isEmpty_of_isFixed (h : isFixed s = true) : s.isEmpty = false := by
  rw [isFixed, Bool.and_eq_true, Bool.not_eq_true'] at h
  exact h.1

lemma plain_of_isFixed (h : isFixed s = true) : Plain d s := by
  rw [isFixed, Bool.and_eq_true, List.all_eq_true] at h
  exact h.2 d (by cases d <;> simp [Dialect.all])

/-- Fixed words after a separator, before anything. -/
lemma spaced_text (hs : isFixed s = true) (h : Spaced d false ps) :
    Spaced d false (.text s :: ps) := by
  refine ⟨plain_of_isFixed hs, by simp, ?_⟩
  rw [isEmpty_of_isFixed hs, Bool.and_false]
  exact h

/-- A separator after a name or mark, before anything. -/
lemma spaced_sep (hs : isSeparator s = true) (h : Spaced d false ps) :
    Spaced d true (.text s :: ps) := by
  rw [isSeparator, Bool.and_eq_true] at hs
  refine ⟨plain_of_isFixed hs.1, fun _ => hs.2, ?_⟩
  rw [isEmpty_of_isFixed hs.1, Bool.and_false]
  exact h

/-- A separator at the end. -/
lemma spaced_last (hs : isSeparator s = true) : Spaced d true [.text s] := spaced_sep hs trivial

lemma spaced_name : Spaced d false [.name s] := ⟨rfl, trivial⟩

lemma spaced_commas : ∀ {l : List (List Piece)}, (∀ p ∈ l, Spaced d false p) →
    Spaced d false (commas l)
  | [], _ => trivial
  | [p], h => h p (by simp)
  | p :: q :: rest, h => by
    have hrest : Spaced d false (commas (q :: rest)) :=
      spaced_commas fun x hx => h x (List.mem_cons_of_mem _ hx)
    exact (h p (by simp)).append
      (spaced_sep (by decide) hrest)

lemma spaced_qualified (source column : String) : Spaced d false (qualified source column) :=
  spaced_name.append (spaced_sep (by decide) spaced_name)

lemma not_endless_of_spaced : ∀ {ps : List Piece} {word : Bool}, Spaced d word ps →
    ps.any isEndless = false
  | [], _, _ => rfl
  | .text _ :: _, _, h => by simpa [isEndless] using not_endless_of_spaced h.2.2
  | .name _ :: _, _, h | .param _ :: _, _, h | .typed _ :: _, _, h => by
    simpa [isEndless] using not_endless_of_spaced h.2
  | .endless :: _, _, h => absurd h (by simp [Spaced])

end Piece

/-! ### Texts with numbers -/

lemma plain_append {d : Dialect} {s t : String} (hs : Plain d s) (ht : Plain d t) :
    Plain d (s ++ t) := by
  simp only [Plain, String.toList_append, List.all_append, Bool.and_eq_true]
  exact ⟨hs, ht⟩

lemma plain_toString (d : Dialect) (n : Nat) : Plain d (toString n) := by
  refine List.all_eq_true.2 fun c hc => ?_
  have hdigit := LexState.isDigit_of_mem_toString hc
  have hne : ∀ x : Char, x.isDigit = false → c ≠ x := fun x hx h => by
    rw [h, hx] at hdigit; cases hdigit
  cases d <;> simp only [Dialect.isPlain, Dialect.openQuote, Dialect.closeQuote,
    Dialect.startsMark, Bool.and_eq_true, bne_iff_ne, Bool.not_eq_true', beq_eq_false_iff_ne] <;>
    exact ⟨⟨hne _ (by decide), hne _ (by decide)⟩, hne _ (by decide)⟩

lemma parting_append {s t : String} (hs : Parting s) (hne : s.isEmpty = false) :
    Parting (s ++ t) := by
  cases h : s.toList with
  | nil => simp_all [← String.toList_eq_nil_iff]
  | cons c cs => simpa [Parting, h] using hs

lemma plain_topClause {d : Dialect} {skip take : Option Nat} {t : String}
    (h : d.topClause skip take = some t) : Plain d t := by
  unfold Dialect.topClause at h
  split at h
  · next n =>
    rw [← Option.some.inj h]
    exact plain_append (plain_append (by decide) (plain_toString _ n)) (by decide)
  · cases h

/-- A paging clause: nothing, or a text that starts with a blank. -/
structure PagingText (d : Dialect) (s : String) : Prop where
  plain : Plain d s
  parting : Parting s

lemma PagingText.empty (d : Dialect) : PagingText d "" := ⟨by cases d <;> decide, by decide⟩

lemma PagingText.append {d : Dialect} {s t : String} (hs : PagingText d s) (ht : PagingText d t) :
    PagingText d (s ++ t) := by
  refine ⟨plain_append hs.plain ht.plain, ?_⟩
  cases h : s.isEmpty with
  | true => rw [String.isEmpty_iff.1 h, String.empty_append]; exact ht.parting
  | false => exact parting_append hs.parting h

lemma PagingText.number {d : Dialect} {before after : String} (n : Nat) (hb : Plain d before)
    (hp : Parting before) (hne : before.isEmpty = false) (ha : Plain d after) :
    PagingText d (before ++ toString n ++ after) := by
  refine ⟨plain_append (plain_append hb (plain_toString d n)) ha, ?_⟩
  rw [String.append_assoc]
  exact parting_append hp hne

/-- A row count between words, or nothing. -/
lemma pagingText_number {d : Dialect} {before after : String} (n : Option Nat) (hb : Plain d before)
    (hp : Parting before) (hne : before.isEmpty = false) (ha : Plain d after) :
    PagingText d (match n with
      | some n => before ++ toString n ++ after
      | none => "") := by
  cases n with
  | none => exact .empty d
  | some n => exact .number n hb hp hne ha

lemma pagingText_paging (d : Dialect) (skip take : Option Nat) (ordered : Bool) :
    PagingText d (d.paging skip take ordered) := by
  cases d with
  | postgres =>
    exact (pagingText_number take (by decide) (by decide) (by decide) (by decide)).append
      (pagingText_number skip (by decide) (by decide) (by decide) (by decide))
  | mySql =>
    simp only [Dialect.paging]
    split
    · exact .empty _
    · have hlimit : PagingText .mySql (" LIMIT " ++ toString (take.getD Dialect.unboundedLimit)) :=
        ⟨plain_append (by decide) (plain_toString _ _), parting_append (by decide) (by decide)⟩
      exact hlimit.append (pagingText_number skip (by decide) (by decide) (by decide) (by decide))
  | sqlServer =>
    simp only [Dialect.paging]
    split
    · exact .empty _
    · refine PagingText.append (PagingText.append ?_
        (pagingText_number skip (by decide) (by decide) (by decide) (by decide)))
        (pagingText_number take (by decide) (by decide) (by decide) (by decide))
      split
      · exact .empty _
      · exact ⟨by decide, by decide⟩
  | db2 =>
    exact (pagingText_number skip (by decide) (by decide) (by decide) (by decide)).append
      (pagingText_number take (by decide) (by decide) (by decide) (by decide))

namespace Writer

open Piece

variable {w : Writer}

/-! ### Values -/

lemma spaced_column (source : Alias) (name : String) :
    Spaced w.dialect false (column source name) := by
  unfold column
  split
  · exact spaced_name.append (spaced_last (by decide))
  · exact spaced_qualified _ _

lemma spaced_row (source : Alias) : Spaced w.dialect false (row source) := by
  unfold row
  split
  · exact spaced_qualified _ _
  · exact spaced_name.append (spaced_last (by decide))

lemma spaced_const (v : Value) : Spaced w.dialect false (const v) := by
  unfold const
  split
  · exact spaced_text (by decide) trivial
  · exact ⟨rfl, trivial⟩

lemma spaced_typed {n : NodeId} (h : Spaced w.dialect false (w.value n)) :
    Spaced w.dialect false (w.typed n) := by
  unfold typed
  split
  · split
    · exact h
    · exact ⟨rfl, trivial⟩
  · exact h

lemma spaced_unary (op : UnaryOp) {operand : Option NodeId}
    (h : ∀ c ∈ operand, Spaced w.dialect false (w.value c)) :
    Spaced w.dialect false (w.unary op operand) := by
  have hoperand : ∀ ps : List Piece, Spaced w.dialect false ps →
      Spaced w.dialect false (operand.elim ps w.value) := by
    intro ps hps
    cases operand with
    | none => exact hps
    | some c => exact h c rfl
  have hfunction : Spaced w.dialect false (.text (op.function?.getD "" ++ "(") ::
      operand.elim [.text "*"] w.value ++ [.text ")"]) := by
    refine (spaced_text (by cases op <;> decide +kernel) (hoperand _ ?_)).append
      (spaced_last (by decide))
    exact spaced_text (by decide) trivial
  cases op with
  | not | «exists» =>
    exact spaced_text (by decide) (hoperand [] trivial)
  | count | max | min | sum | average => exact hfunction

lemma spaced_concat {l r : NodeId} (hl : Spaced w.dialect false (w.value l))
    (hr : Spaced w.dialect false (w.value r)) :
    Spaced w.dialect false (.text w.dialect.concatMarks.1 :: w.typed l ++
      .text w.dialect.concatMarks.2.1 :: w.typed r ++ [.text w.dialect.concatMarks.2.2]) := by
  refine ((spaced_text ?_ (spaced_typed hl)).append
    (spaced_sep ?_ (spaced_typed hr))).append (spaced_last ?_)
  all_goals cases w.dialect <;> decide +kernel

lemma spaced_binary (op : BinaryOp) {l r : NodeId} (hl : Spaced w.dialect false (w.value l))
    (hr : Spaced w.dialect false (w.value r)) : Spaced w.dialect false (w.binary op l r) := by
  unfold binary
  split
  · refine (spaced_text (by decide) ?_).append ?_
    · split
      · exact hr
      · exact hl
    · split
      · exact spaced_last (by decide)
      · exact spaced_last (by decide)
  · split
    · exact spaced_concat hl hr
    · exact ((spaced_text (by decide) hl).append
        (spaced_sep (by decide) hr)).append
        (spaced_last (by decide))
    · refine ((spaced_text (by decide) hl).append
        (spaced_sep ?_ hr)).append (spaced_last (by decide))
      cases op <;> decide +kernel

/-- A node is spaced if its parts are. -/
theorem spaced_node {n : Node} (hv : ∀ c ∈ n.children, Spaced w.dialect false (w.value c))
    (hq : ∀ r, n = .sub r → Spaced w.dialect false (w.query r)) :
    Spaced w.dialect false (w.node n) := by
  have hclose : Spaced w.dialect true [.text ")"] :=
    spaced_last (by decide)
  have hopen : ∀ {ps : List Piece}, Spaced w.dialect false ps →
      Spaced w.dialect false (.text "(" :: ps) :=
    spaced_text (by decide)
  cases n with
  | column a name => exact spaced_column _ _
  | row a => exact spaced_row _
  | const v => exact spaced_const v
  | unary op operand => exact spaced_unary op fun c hc => hv c (by simpa [Node.children] using hc)
  | binary op l r =>
    exact spaced_binary op (hv l (by simp [Node.children])) (hv r (by simp [Node.children]))
  | isIn e vs =>
    cases vs with
    | nil => exact spaced_text (by decide) trivial
    | cons v vs =>
      have hvalues : Spaced w.dialect false (commas ((v :: vs).map w.value)) := by
        refine spaced_commas fun p hp => ?_
        obtain ⟨c, hc, rfl⟩ := List.mem_map.1 hp
        exact hv c (List.mem_cons_of_mem _ hc)
      exact ((hopen (hv e (by simp [Node.children]))).append
        (spaced_sep (by decide) hvalues)).append
        (spaced_last (by decide))
  | cond t y n =>
    exact (((spaced_text (by decide)
      (hv t (by simp [Node.children]))).append
      (spaced_sep (by decide)
        (spaced_typed (hv y (by simp [Node.children]))))).append
      (spaced_sep (by decide)
        (spaced_typed (hv n (by simp [Node.children]))))).append
      (spaced_last (by decide))
  | sub r => exact (hopen (hq r rfl)).append hclose

/-! ### Clauses -/

lemma spaced_source {a : AliasId}
    (h : ∀ s, (w.graph.aliasOf a).origin = .request s → Spaced w.dialect false (w.query s)) :
    Spaced w.dialect false (w.source a) := by
  unfold source
  dsimp only
  split
  · exact spaced_name.append (spaced_sep (by decide) spaced_name)
  · next r hr =>
    exact (spaced_text (by decide) (h r hr)).append (spaced_sep (by decide) spaced_name)

lemma spaced_after {keyword : String} (hk : isSeparator keyword = true) {n : Option NodeId}
    (h : ∀ c ∈ n, Spaced w.dialect false (w.value c)) :
    Spaced w.dialect true (w.after keyword n) := by
  cases n with
  | none => trivial
  | some c => exact spaced_sep hk (h c rfl)

lemma spaced_afterAll {d : Dialect} {keyword : String} (hk : isSeparator keyword = true)
    {l : List (List Piece)} (h : ∀ p ∈ l, Spaced d false p) :
    Spaced d true (afterAll keyword l) := by
  unfold afterAll
  split
  · trivial
  · exact spaced_sep hk (spaced_commas h)

section Clauses

variable {q : Request} (hv : ∀ n ∈ q.clauseNodes, Spaced w.dialect false (w.value n))
  (hs : ∀ a ∈ q.origins, Spaced w.dialect false (w.source a))

include hv

lemma spaced_whereClause : Spaced w.dialect true (w.whereClause q) :=
  spaced_after (by decide) fun c hc => hv c (by simp [Request.clauseNodes, Option.mem_def.1 hc])

lemma spaced_orderClause : Spaced w.dialect true (w.orderClause q) := by
  refine spaced_afterAll (by decide) fun p hp => ?_
  obtain ⟨o, ho, rfl⟩ := List.mem_map.1 hp
  have hnode : Spaced w.dialect false (w.value o.node) :=
    hv _ (by simp only [Request.clauseNodes, List.mem_append, List.mem_map]; grind)
  split
  · exact hnode
  · exact hnode.append (spaced_last (by decide))

lemma spaced_restrictions : Spaced w.dialect true (w.restrictions q) := by
  refine (((spaced_whereClause hv).append (spaced_afterAll (by decide) fun p hp => ?_)).append
    (spaced_after (by decide) fun c hc => hv c (by simp [Request.clauseNodes,
      Option.mem_def.1 hc]))).append (spaced_orderClause hv)
  obtain ⟨n, hn, rfl⟩ := List.mem_map.1 hp
  exact hv n (by simp [Request.clauseNodes, hn])

lemma spaced_selection : Spaced w.dialect false (w.selection q) := by
  unfold selection
  split
  · exact spaced_text (by decide) trivial
  · refine spaced_commas fun p hp => ?_
    obtain ⟨i, hi, rfl⟩ := List.mem_map.1 hp
    have hnode : Spaced w.dialect false (w.typed i.node) :=
      spaced_typed (hv _ (by simp only [Request.clauseNodes, List.mem_append, List.mem_map]; grind))
    split
    · exact hnode.append (spaced_sep (by decide) spaced_name)
    · exact hnode

lemma spaced_assigned {a : Assignment} (ha : a ∈ q.assignments) :
    Spaced w.dialect false (w.value a.column) ∧ Spaced w.dialect false (w.value a.value) := by
  have hmem : ∀ n, n = a.column ∨ n = a.value → n ∈ q.clauseNodes := by
    intro n hn
    simp only [Request.clauseNodes, List.mem_append, List.mem_flatMap]
    exact .inr ⟨a, ha, by simpa using hn⟩
  exact ⟨hv _ (hmem _ (.inl rfl)), hv _ (hmem _ (.inr rfl))⟩

omit hv in
lemma spaced_assignedName (a : Assignment) : Spaced w.dialect false (w.assignedName a) := by
  unfold assignedName
  split
  · exact spaced_name
  · trivial

lemma spaced_setClause (withSource : Bool) : Spaced w.dialect true (w.setClause q withSource) := by
  refine spaced_sep (by decide) (spaced_commas fun p hp => ?_)
  obtain ⟨a, ha, rfl⟩ := List.mem_map.1 hp
  obtain ⟨hcolumn, hvalue⟩ := spaced_assigned hv ha
  refine Spaced.append ?_ (spaced_sep (by decide) hvalue)
  split
  · exact hcolumn
  · exact spaced_assignedName a

include hs

lemma spaced_joins : Spaced w.dialect true (w.joins q) := by
  have hjoins : ∀ js : List Join, (∀ j ∈ js, j ∈ q.joins) →
      Spaced w.dialect true (js.flatMap fun j =>
        .text (" " ++ j.kind.keyword ++ " ") :: w.source j.source ++
          .text " ON " :: w.value j.condition) := by
    intro js hjs
    induction js with
    | nil => trivial
    | cons j js ih =>
      have hj : j ∈ q.joins := hjs j (by simp)
      have hsource : Spaced w.dialect false (w.source j.source) :=
        hs _ (by simp only [Request.origins, Request.sources, List.mem_append, List.mem_map]; grind)
      have hcondition : Spaced w.dialect false (w.value j.condition) :=
        hv _ (by simp only [Request.clauseNodes, List.mem_append, List.mem_map]; grind)
      rw [List.flatMap_cons]
      exact ((spaced_sep (by cases j.kind <;> decide +kernel) hsource).append
        (spaced_sep (by decide) hcondition)).append
        (ih fun k hk => hjs k (List.mem_cons_of_mem _ hk))
  exact hjoins q.joins fun _ h => h

lemma spaced_fromClause : Spaced w.dialect true (w.fromClause q) := by
  unfold fromClause
  split
  · next base hbase =>
    have hsource : Spaced w.dialect false (w.source base) :=
      hs base (by simp [Request.origins, Request.sources, hbase])
    exact (spaced_sep (by decide) hsource).append (spaced_joins hv hs)
  · split
    · next dummy hdummy =>
      refine spaced_last ?_
      cases hd : w.dialect <;> simp_all [Dialect.dummyTable]
      · rw [← hdummy]; decide
    · trivial

lemma spaced_select {values : List Piece} (h : Spaced w.dialect false values) :
    Spaced w.dialect false (w.select q values) := by
  have hpaging : PagingText w.dialect (if (w.dialect.topClause q.skip q.take).isSome then ""
      else w.dialect.paging q.skip q.take (!q.orders.isEmpty)) := by
    split
    · exact .empty _
    · exact pagingText_paging _ _ _ _
  have hrest : Spaced w.dialect true (w.fromClause q ++ w.restrictions q ++
      [.text (if (w.dialect.topClause q.skip q.take).isSome then ""
        else w.dialect.paging q.skip q.take (!q.orders.isEmpty))]) :=
    ((spaced_fromClause hv hs).append (spaced_restrictions hv)).append
      ⟨hpaging.plain, fun _ => hpaging.parting, trivial⟩
  have htop : Spaced w.dialect false (((w.dialect.topClause q.skip q.take).toList.map fun t =>
      .text (t ++ " ")) ++ values) := by
    cases ht : w.dialect.topClause q.skip q.take with
    | none => exact h
    | some t =>
      refine ⟨plain_append (plain_topClause ht) (by cases w.dialect <;> decide +kernel), by simp, ?_⟩
      rw [Bool.false_and]
      exact h
  have hdistinct : Spaced w.dialect false ((if q.distinct then [.text "DISTINCT "] else []) ++
      (((w.dialect.topClause q.skip q.take).toList.map fun t => .text (t ++ " ")) ++ values)) := by
    split
    · exact spaced_text (by decide) htop
    · exact htop
  have hall := (spaced_text (s := "SELECT ") (by decide) hdistinct).append hrest
  simpa only [select, List.append_assoc, List.cons_append] using hall

lemma spaced_restriction {target : AliasId} (ht : Spaced w.dialect false (w.source target)) :
    Spaced w.dialect true (w.restriction q target) := by
  unfold restriction
  dsimp only
  split
  · exact (((((spaced_sep (by decide) (spaced_qualified _ _)).append
      (spaced_sep (by decide) (spaced_qualified _ _))).append
      (spaced_sep (by decide) ht)).append (spaced_joins hv hs)).append
      (spaced_whereClause hv)).append (spaced_last (by decide))
  · exact spaced_whereClause hv

/-! ### Requests -/

lemma spaced_delete {target : AliasId} (ht : Spaced w.dialect false (w.source target)) :
    Spaced w.dialect false (w.delete q target) := by
  unfold delete
  split
  · exact (spaced_text (by decide) ht).append (spaced_restriction hv hs ht)
  all_goals
    exact (((spaced_text (by decide) spaced_name).append (spaced_sep (by decide) ht)).append
      (spaced_joins hv hs)).append (spaced_whereClause hv)

lemma spaced_update {target : AliasId} (ht : Spaced w.dialect false (w.source target)) :
    Spaced w.dialect false (w.update q target) := by
  unfold update
  split
  · exact ((spaced_text (by decide) ht).append (spaced_setClause hv false)).append
      (spaced_restriction hv hs ht)
  · exact (((spaced_text (by decide) ht).append (spaced_joins hv hs)).append
      (spaced_setClause hv true)).append (spaced_whereClause hv)
  · exact ((((spaced_text (by decide) spaced_name).append (spaced_setClause hv false)).append
      (spaced_sep (by decide) ht)).append (spaced_joins hv hs)).append (spaced_whereClause hv)

lemma spaced_insert (target : AliasId) : Spaced w.dialect false (w.insert q target) := by
  have hnames : Spaced w.dialect false (commas (q.assignments.map w.assignedName)) := by
    refine spaced_commas fun p hp => ?_
    obtain ⟨a, _, rfl⟩ := List.mem_map.1 hp
    exact spaced_assignedName a
  have hvalues : Spaced w.dialect false (commas (q.assignments.map fun a => w.typed a.value)) := by
    refine spaced_commas fun p hp => ?_
    obtain ⟨a, ha, rfl⟩ := List.mem_map.1 hp
    exact spaced_typed (spaced_assigned hv ha).2
  unfold insert
  dsimp only
  refine ((spaced_text (by decide) ?_).append (spaced_sep (by decide) hnames)).append
    (spaced_sep (by decide) (spaced_select hv hs hvalues))
  split
  · exact spaced_name
  · trivial

/-- A request is spaced if its clauses and sources are. -/
theorem spaced_request : Spaced w.dialect false (w.request q) := by
  have htarget : ∀ target, (q.target <|> q.base) = some target →
      Spaced w.dialect false (w.source target) := by
    intro target h
    refine hs target ?_
    cases ht : q.target with
    | some a => simp_all [Request.origins, Request.sources]
    | none => simp_all [Request.origins, Request.sources]
  unfold request
  split
  · exact spaced_select hv hs (spaced_selection hv)
  · next target _ h => exact spaced_delete hv hs (htarget target h)
  · next target _ h => exact spaced_update hv hs (htarget target h)
  · next target _ _ => exact spaced_insert hv hs target
  · trivial

end Clauses

end Writer

namespace Graph

/-- The pieces of every request of an acyclic graph are spaced. -/
theorem spaced_readRequest {g : Graph} (ho : g.Ordered) (hg : g.Acyclic) (d : Dialect)
    (r : RequestId) : Piece.Spaced d false (g.readRequest (g.writing d) r) := by
  refine readRequest_induction (P := Piece.Spaced d false) (ranked_rank ho hg) ?_ ?_ r
  · intro part query n hpart hquery
    exact Writer.spaced_node (w := ⟨g, d, part, query⟩) hpart hquery
  · intro part query r hpart hquery
    exact Writer.spaced_request (w := ⟨g, d, part, query⟩) hpart fun a ha =>
      Writer.spaced_source (w := ⟨g, d, part, query⟩) (hquery a ha)

/-- **Every mark belongs to its parameter.** The text of a request can be read back without ending
inside a name, and its marks are those of its parameters in order. -/
theorem lex_writeRequest? (g : Graph) (ho : g.Ordered) (hg : g.Acyclic) (d : Dialect)
    (r : RequestId) : ∃ w tokens, g.writeRequest? d r = some w ∧ lex d w.sql = some tokens ∧
      tokens.filterMap Token.mark? = (List.range w.params.length).map d.placeholder := by
  have hspaced := spaced_readRequest ho hg d r
  have hwritten : g.writeRequest? d r = some ⟨Piece.sql d (g.readRequest (g.writing d) r),
      Piece.params (g.readRequest (g.writing d) r)⟩ := by
    rw [writeRequest?, writer, Written.ofPieces?, Piece.not_endless_of_spaced hspaced]
    rfl
  refine ⟨_, _, hwritten, Piece.lex_sql hspaced, ?_⟩
  rw [Piece.marks_tokens, List.range_eq_range']

/-- A query whose names look like quotes and marks, with a request inside it. -/
def hostile : Graph where
  entries := #[⟨.column ⟨1⟩ "?", none⟩, ⟨.const (.string "$1"), none⟩,
    ⟨.binary .equal ⟨0⟩ ⟨1⟩, none⟩, ⟨.sub ⟨1⟩, none⟩, ⟨.unary .exists (some ⟨3⟩), none⟩,
    ⟨.const (.int 7), none⟩]
  aliases := #[{ name := "\"]", origin := .table "$1", entity := none, idColumn := none },
    { name := "@P1", origin := .table "", entity := none, idColumn := none }]
  requests := #[
    { base := some ⟨0⟩, items := [{ node := ⟨5⟩, label := some "\"\"" }], filter := some ⟨4⟩ },
    { base := some ⟨1⟩, filter := some ⟨2⟩ }]

lemma ordered_hostile : hostile.Ordered := ordered_iff.2 (by decide)

lemma acyclic_hostile : hostile.Acyclic := by
  refine acyclic_of_older ordered_hostile ?_ ?_
  · rintro ⟨m⟩ s hm
    have hlt := lt_size_of_node_eq_sub hm
    change m < 6 at hlt
    interval_cases m <;> cases hm
    decide
  · intro r a ha s hs
    obtain ⟨a⟩ := a
    have hlt : a < 2 := by
      by_contra h
      simp [aliasOf, hostile, Array.getD, h] at hs
    interval_cases a <;> cases hs

theorem lex_writeRequest?_hostile : hostile.Ordered ∧ hostile.Acyclic ∧
    ∃ w tokens, hostile.writeRequest? .postgres ⟨0⟩ = some w ∧ lex .postgres w.sql = some tokens ∧
      tokens.filterMap Token.mark? = (List.range w.params.length).map Dialect.postgres.placeholder :=
  ⟨ordered_hostile, acyclic_hostile,
    lex_writeRequest? hostile ordered_hostile acyclic_hostile .postgres ⟨0⟩⟩

end Graph

end EntityQuery.Sql
