import EntityQuery.Compile.Statement
import EntityQuery.Proofs.Formulas.Tables
import EntityQuery.Proofs.Writes.Flat

/-!
Expressions over rows and related rows.

* `isPlain`: an expression reads members of rows and of related rows, and has no query of its own.
* `Level`: the request is built over tables that are joined one after the other.
* `spreads_visit`: a plain expression stands for a node or a source, and it adds nodes and joins alone. The
  induction is on the depth of the expression, with one case for every form of it.
-/

namespace EntityQuery

open Sql Graph

/-! ### Expressions -/

/-- Operators whose value is made of the values of their arguments. -/
def Method.isTest : Method → Bool
  | .contains | .startsWith | .endsWith | .useLeftJoin => true
  | _ => false

namespace Expr

mutual
/-- An expression over rows and some members of them, without a query of its own. -/
def isPlain (reads : PropertyRef → Bool) : Expr → Bool
  | .const _ | .param _ => true
  | .member e p => reads p && isPlain reads e
  | .binary _ l r => isPlain reads l && isPlain reads r
  | .unary _ e => isPlain reads e
  | .cond t y n => isPlain reads t && isPlain reads y && isPlain reads n
  | .call m args => m.isTest && arePlain reads args
  | .source _ | .key _ | .lambda _ _ | .new _ _ | .init _ _ => false

def arePlain (reads : PropertyRef → Bool) : List Expr → Bool
  | [] => true
  | e :: rest => isPlain reads e && arePlain reads rest
end

lemma isPlain_of_mem {reads : PropertyRef → Bool} {es : List Expr} (h : arePlain reads es = true) :
    ∀ e ∈ es, e.isPlain reads = true := by
  induction es with
  | nil => simp
  | cons e es ih =>
    obtain ⟨he, hes⟩ := Bool.and_eq_true_iff.1 h
    intro f hf
    rcases List.mem_cons.1 hf with rfl | hf
    · exact he
    · exact ih hes f hf

end Expr

/-- Properties that are columns of their own row. -/
def Catalog.Own (c : Catalog) (reads : PropertyRef → Bool) : Prop :=
  ∀ p, reads p = true → ∀ stored, c.propertyMapping p = .ok stored → stored.isScalar = true

namespace Compile

variable {m : Mapping} {reads : PropertyRef → Bool} {s t u : CompileState} {n : NodeId}

/-! ### States -/

/-- The outermost request is built over tables that are joined one after the other. -/
structure Level (m : Mapping) (reads : PropertyRef → Bool) (s : CompileState) : Prop where
  flat : s.graph.Flat
  bare : (s.graph.request ⟨0⟩).Bare
  active : s.active = some ⟨0⟩
  mapping : s.mapping = m
  equivalents : m.equivalents = []
  paths : s.paths = []
  computed : s.computed = []
  own : m.catalog.Own reads → (s.graph.request ⟨0⟩).joins = []

/-- Nodes and joins are added. -/
structure Adds (reads : PropertyRef → Bool) (s t : CompileState) : Prop where
  state : t = { s with graph := t.graph }
  spread : Spread s.graph t.graph
  own : s.mapping.catalog.Own reads → (t.graph.request ⟨0⟩).joins = (s.graph.request ⟨0⟩).joins

/-- A node or a source of the graph. -/
def Present (t : CompileState) : Meaning → Prop
  | .value n => n.index < t.graph.entries.size
  | .row a => a.index < t.graph.aliases.size
  | .query _ => False

/-- Steps that find a node or a source. -/
abbrev Finds (reads : PropertyRef → Bool) (x : Compile Meaning) (s : CompileState) : Prop :=
  Ensures x s fun m t => Adds reads s t ∧ Present t m

/-- A rule under which plain expressions stand for nodes and sources. -/
def Spreads (m : Mapping) (reads : PropertyRef → Bool) (visit : Visit) : Prop :=
  ∀ e s, e.isPlain reads = true → Level m reads s → Finds reads (visit e) s

/-- Steps that give a node. -/
abbrev Gives (reads : PropertyRef → Bool) (x : Compile NodeId) (s : CompileState) : Prop :=
  Ensures x s fun n t => Adds reads s t ∧ n.index < t.graph.entries.size

namespace Adds

lemma refl (hs : Level m reads s) : Adds reads s s := ⟨rfl, .refl hs.flat, fun _ => rfl⟩

lemma trans (hst : Adds reads s t) (htu : Adds reads t u) : Adds reads s u := by
  have hcatalog : t.mapping.catalog = s.mapping.catalog := by rw [hst.state]
  refine ⟨?_, hst.spread.trans htu.spread, fun hown => ?_⟩
  · rw [htu.state, hst.state]
  · rw [htu.own (hcatalog ▸ hown), hst.own hown]

lemma level (hst : Adds reads s t) (hs : Level m reads s) : Level m reads t := by
  have hbare := hs.bare
  have hrequest := hst.spread.request
  have hjoins := hst.own
  rw [hst.state]
  refine ⟨hst.spread.flat, ?_, hs.active, hs.mapping, hs.equivalents, hs.paths, hs.computed, fun hown =>
    (hjoins (hs.mapping ▸ hown)).trans (hs.own hown)⟩
  rw [hrequest]
  exact ⟨hbare.kind, hbare.base, hbare.target, hbare.items, hbare.groups, hbare.having, hbare.parent⟩

lemma build {k : Graph} (h : Spread s.graph k) (hown : s.mapping.catalog.Own reads →
    (k.request ⟨0⟩).joins = (s.graph.request ⟨0⟩).joins) : Adds reads s { s with graph := k } :=
  ⟨rfl, h, hown⟩

lemma lt (hst : Adds reads s t) (hn : n.index < s.graph.entries.size) : n.index < t.graph.entries.size :=
  hn.trans_le hst.spread.entries

/-- What steps after some others add. -/
lemma after (hst : Adds reads s t) {x : Compile Meaning} (hx : Finds reads x t) :
    Ensures x t fun m u => Adds reads s u ∧ Present u m :=
  hx.mono fun _ _ ⟨hu, hm⟩ => ⟨hst.trans hu, hm⟩

end Adds

/-! ### Nodes -/

/-- A node that reads no source is made of nodes. -/
lemma gives_operator (hs : Level m reads s) {x : Node} (hx : ∀ c ∈ x.children, c.index < s.graph.entries.size)
    (hsource : x.source? = none) (hsub : ∀ r, x ≠ .sub r) : Gives reads (add x) s := by
  refine ensures_add.2 ⟨.build (.add hs.flat hx (fun a ha => ?_) hsub) fun _ => by
    rw [request_add], ?_⟩
  · rw [hsource] at ha
    cases ha
  · simp

/-- A node that reads a source of the graph. -/
lemma gives_reader (hs : Level m reads s) {x : Node} {a : AliasId} (ha : a.index < s.graph.aliases.size)
    (hx : x.children = [] ∧ x.source? = some a) (hsub : ∀ r, x ≠ .sub r) : Gives reads (add x) s := by
  refine ensures_add.2 ⟨.build (.add hs.flat (by simp [hx.1]) (fun b hb => ?_) hsub) fun _ => by
    rw [request_add], by simp⟩
  rw [hx.2] at hb
  cases hb
  exact ha

lemma gives_valueOf (hs : Level m reads s) {m : Meaning} (hm : Present s m) : Gives reads (valueOf m) s := by
  cases m with
  | value n => exact ensures_pure.2 ⟨.refl hs, hm⟩
  | row a => exact gives_reader hs hm ⟨rfl, rfl⟩ (by simp)
  | query r => exact hm.elim

lemma gives_condition (hs : Level m reads s) (hn : n.index < s.graph.entries.size) :
    Gives reads (condition n) s := by
  rw [condition, Gives, ensures_bind, ensures_graph]
  split
  · refine (gives_operator hs (x := .const (.boolean true)) (by simp [Node.children]) rfl
      (by simp)).bind fun truth t ⟨ht, htruth⟩ => ?_
    refine (gives_operator (ht.level hs) (x := .binary .equal n truth) ?_ rfl (by simp)).mono
      fun m u ⟨hu, hm⟩ => ⟨ht.trans hu, hm⟩
    simpa [Node.children] using ⟨ht.lt hn, htruth⟩
  · exact ensures_pure.2 ⟨.refl hs, hn⟩

/-! ### Values -/

lemma spreads_constant (hs : Level m reads s) (e : Expr) (l : Literal) :
    Finds reads (constant e l) s := by
  have hconst : ∀ v, Finds reads (Meaning.value <$> add (.const v)) s :=
    fun v => ensures_map.2 (gives_operator hs (x := .const v) (by simp [Node.children]) rfl (by simp))
  exact ensures_constant_of e l hconst

/-- A lambda parameter stands for a source of the request. -/
lemma spreads_parameter (hs : Level m reads s) (e : Expr) (p : Param) :
    Finds reads (parameter e p) s := by
  refine ensures_parameter_of e p fun r a _ ha => ⟨.refl hs, ?_⟩
  obtain ⟨q, -, hq⟩ := Option.bind_eq_some_iff.1 ha
  exact hs.flat.sound.source q a (List.mem_append_left _ (List.mem_of_find?_eq_some hq))

lemma spreads_resolveMember (hs : Level m reads s) (e : Expr) {a : AliasId}
    (ha : a.index < s.graph.aliases.size) {p : PropertyRef} (hp : reads p = true) :
    Finds reads (resolveMember e a p) s := by
  intro m t hrun
  obtain ⟨r, hr, hstep⟩ := (runs_resolveMember hs.paths hs.computed).1 hrun
  obtain rfl : r = ⟨0⟩ := Option.some.inj (hr.symm.trans hs.active)
  obtain ⟨x, g, hresolve, rfl, rfl⟩ := runs_resolveStep.1 hstep
  rw [Mapping.resolve_eq_locate (hs.mapping ▸ hs.equivalents)] at hresolve
  obtain ⟨hspread, hx⟩ := Mapping.spread_locate hs.flat ha x g hresolve
  refine ⟨.build hspread fun hown => Mapping.joins_locate (hown p hp) x g hresolve, ?_⟩
  cases x <;> exact hx

/-- Under another way to join. -/
lemma spreads_widening {x : Compile Meaning} {w : Bool} (hs : Level m reads s)
    (hx : Level m reads { s with widen := w } → Finds reads x { s with widen := w }) :
    Finds reads (widening w x) s := by
  refine ensures_widening.2 ((hx ⟨hs.flat, hs.bare, hs.active, hs.mapping, hs.equivalents, hs.paths,
    hs.computed, hs.own⟩).mono fun m t ⟨ht, hm⟩ => ⟨⟨?_, ht.spread, ht.own⟩, hm⟩)
  rw [ht.state]

section Visit

variable {visit : Visit} (hv : Spreads m reads visit)
include hv

lemma gives_value (hs : Level m reads s) {e : Expr} (he : e.isPlain reads = true) :
    Gives reads (value visit e) s := by
  rw [value, Gives, ensures_get_bind]
  refine (hv e s he hs).bind fun m t ht => ?_
  obtain ⟨ht, hm⟩ := ht
  have hlevel := ht.level hs
  have hlast : Ensures (valueOf m) t fun n u => Adds reads s u ∧ n.index < u.graph.entries.size :=
    (gives_valueOf hlevel hm).mono fun n u hu => ⟨ht.trans hu.1, hu.2⟩
  have hsame : { t with active := s.active } = t := by rw [hs.active, ← hlevel.active]
  dsimp only
  split
  · rw [ensures_bind, ensures_modify, hsame]
    exact hlast
  · exact hlast

lemma spreads_member (hs : Level m reads s) (e : Expr) {target : Expr} (htarget : target.isPlain reads = true)
    {p : PropertyRef} (hp : reads p = true) : Finds reads (member visit e target p) s := by
  unfold member
  split
  · cases htarget
  · refine (hv target s htarget hs).bind fun m t ⟨ht, hm⟩ => ?_
    cases m with
    | row a => exact ht.after (spreads_resolveMember (ht.level hs) e hm hp)
    | query r => exact hm.elim
    | value n => exact ensures_reject

lemma spreads_binary (hs : Level m reads s) (e : Expr) (op : BinaryOperator) {l r : Expr}
    (hl : l.isPlain reads = true) (hr : r.isPlain reads = true) :
    Finds reads (binary visit e op l r) s := by
  unfold binary
  split
  · exact ensures_reject
  · next sqlOp _ =>
    rw [Finds, ensures_get_bind]
    refine spreads_widening hs fun hs => ?_
    refine (gives_value hv hs hl).bind fun m t ⟨ht, hm⟩ => ?_
    refine (gives_value hv (ht.level hs) hr).bind fun n u ⟨hu, hn⟩ => ?_
    have hlevel := hu.level (ht.level hs)
    have hoperator : ∀ {v : CompileState} {m n : NodeId}, Adds reads u v → m.index < v.graph.entries.size →
        n.index < v.graph.entries.size → Ensures (Meaning.value <$> add (.binary sqlOp m n)) v
          fun m w => Adds reads _ w ∧ Present w m := fun hv hm hn =>
      ((ht.trans hu).trans hv).after (ensures_map.2 (gives_operator (hv.level hlevel)
        (x := .binary sqlOp _ _) (by simp [Node.children, hm, hn]) rfl (by simp)))
    split
    · refine (gives_condition hlevel (hu.lt hm)).bind fun m' v ⟨hv, hm'⟩ => ?_
      refine (gives_condition (hv.level hlevel) (hv.lt hn)).bind fun n' w ⟨hw, hn'⟩ => ?_
      exact hoperator (hv.trans hw) (hw.lt hm') hn'
    · exact hoperator (.refl hlevel) (hu.lt hm) hn

lemma spreads_unary (hs : Level m reads s) (e : Expr) (op : UnaryOperator) {operand : Expr}
    (ho : operand.isPlain reads = true) :
    Finds reads (unary visit e op operand) s := by
  cases op with
  | not =>
    refine (gives_value hv hs ho).bind fun n t ⟨ht, hn⟩ => ?_
    refine (gives_condition (ht.level hs) hn).bind fun m u ⟨hu, hm⟩ => ?_
    exact (ht.trans hu).after (ensures_map.2 (gives_operator (hu.level (ht.level hs))
      (x := .unary .not (some m)) (by simp [Node.children, hm]) rfl (by simp)))
  | convert => exact hv operand s ho hs
  | negate => exact ensures_reject

lemma spreads_conditional (hs : Level m reads s) {test yes no : Expr} (ht : test.isPlain reads = true)
    (hy : yes.isPlain reads = true) (hn : no.isPlain reads = true) :
    Finds reads (conditional visit test yes no) s := by
  refine (gives_value hv hs ht).bind fun k t ⟨ht, hk⟩ => ?_
  refine (gives_condition (ht.level hs) hk).bind fun k' u ⟨hu, hk'⟩ => ?_
  have hsu := ht.trans hu
  refine (gives_value hv (hsu.level hs) hy).bind fun y v ⟨hv', hy⟩ => ?_
  have hsv := hsu.trans hv'
  refine (gives_value hv (hsv.level hs) hn).bind fun n w ⟨hw, hn⟩ => ?_
  refine (hsv.trans hw).after (ensures_map.2 (gives_operator ((hsv.trans hw).level hs)
    (x := .cond k' y n) ?_ rfl (by simp)))
  simpa [Node.children] using ⟨hw.lt (hv'.lt hk'), hw.lt hy, hn⟩

/-! ### Parts of texts, members of lists -/

variable {arg : Expr} {args : List Expr}

lemma spreads_like (hs : Level m reads s) (e : Expr) (before after : Bool) (harg : arg.isPlain reads = true)
    (hargs : ∀ a ∈ args, a.isPlain reads = true) :
    Finds reads (like visit e before after arg args) s := by
  refine (gives_value hv hs harg).bind fun subject t ⟨ht, hsubject⟩ => ?_
  refine (ensures_argument e args 1).bind fun part t' ⟨hpart, ht'⟩ => ?_
  rw [ht']
  refine (gives_value hv (ht.level hs) (hargs part hpart)).bind fun operand u ⟨hu, hoperand⟩ => ?_
  have hsu := ht.trans hu
  -- a wildcard on either side of a text
  have hbinary : ∀ (op : BinaryOp) {v : CompileState} {m n : NodeId}, Adds reads s v →
      m.index < v.graph.entries.size → n.index < v.graph.entries.size →
      Gives reads (add (.binary op m n)) v :=
    fun op _ _ _ hv hm hn => gives_operator (hv.level hs) (by simp [Node.children, hm, hn]) rfl (by simp)
  have hwildcard : ∀ {v : CompileState}, Adds reads s v → Gives reads wildcard v := fun hv =>
    gives_operator (x := .const (.string "%")) (hv.level hs) (by simp [Node.children]) rfl (by simp)
  have hmatch : ∀ {v : CompileState} {pattern : NodeId}, Adds reads s v → Adds reads t v →
      pattern.index < v.graph.entries.size →
      Ensures (Meaning.value <$> add (.binary .like subject pattern)) v
        fun m w => Adds reads s w ∧ Present w m :=
    fun hv htv hpattern => hv.after (ensures_map.2 (hbinary .like hv (htv.lt hsubject) hpattern))
  have hpattern : ∀ {v : CompileState} {tail : NodeId}, Adds reads s v → Adds reads t v →
      tail.index < v.graph.entries.size → Ensures (if before = true then do
          let any ← wildcard
          let pattern ← concat any tail
          Meaning.value <$> add (.binary .like subject pattern)
        else do
          let pattern ← pure tail
          Meaning.value <$> add (.binary .like subject pattern)) v
        fun m w => Adds reads s w ∧ Present w m := by
    intro v tail hv htv htail
    split
    · refine (hwildcard hv).bind fun any w ⟨hw, hany⟩ => ?_
      refine (hbinary .concat (hv.trans hw) hany (hw.lt htail)).bind fun pattern x ⟨hx, hpattern⟩ => ?_
      exact hmatch ((hv.trans hw).trans hx) ((htv.trans hw).trans hx) hpattern
    · rw [pure_bind]
      exact hmatch hv htv htail
  dsimp only
  split
  · refine (hwildcard hsu).bind fun any w ⟨hw, hany⟩ => ?_
    refine (hbinary .concat (hsu.trans hw) (hw.lt hoperand) hany).bind fun tail x ⟨hx, htail⟩ => ?_
    exact hpattern ((hsu.trans hw).trans hx) ((hu.trans hw).trans hx) htail
  · rw [pure_bind]
    exact hpattern hsu hu hoperand

omit hv in
lemma gives_constants (vs : List Value) (hs : Level m reads s) :
    Ensures (vs.mapM fun v => add (.const v)) s fun ns t =>
      Adds reads s t ∧ ∀ n ∈ ns, n.index < t.graph.entries.size := by
  induction vs generalizing s with
  | nil => exact ensures_pure.2 ⟨.refl hs, by simp⟩
  | cons v vs ih =>
    rw [List.mapM_cons]
    refine (gives_operator hs (x := .const v) (by simp [Node.children]) rfl (by simp)).bind
      fun n t ⟨ht, hn⟩ => ?_
    refine (ih (ht.level hs)).bind fun ns u ⟨hu, hns⟩ => ensures_pure.2 ⟨ht.trans hu, fun m hm => ?_⟩
    rcases List.mem_cons.1 hm with rfl | hm
    · exact hu.lt hn
    · exact hns m hm

lemma spreads_contains (hs : Level m reads s) (e : Expr) (harg : arg.isPlain reads = true)
    (hargs : ∀ a ∈ args, a.isPlain reads = true) :
    Finds reads (contains visit e arg args) s := by
  refine (ensures_argument e args 1).bind fun item t ⟨hitem, ht⟩ => ?_
  rw [ht]
  split
  · exact spreads_like hv hs e true true harg hargs
  · split
    · refine (gives_value hv hs (hargs item hitem)).bind fun operand t ⟨ht, hoperand⟩ => ?_
      refine (gives_constants _ (ht.level hs)).bind fun ns u ⟨hu, hns⟩ => ?_
      refine (ht.trans hu).after (ensures_map.2 (gives_operator (hu.level (ht.level hs))
        (x := .isIn operand ns) (fun c hc => ?_) rfl (by simp)))
      rcases List.mem_cons.1 hc with rfl | hc
      · exact hu.lt hoperand
      · exact hns c hc
    · exact ensures_reject

/-! ### Plain expressions -/

/-- One rule, given what the parts of an expression stand for. -/
lemma spreads_step (hs : Level m reads s) {e : Expr} (he : e.isPlain reads = true) :
    Finds reads (step visit e) s := by
  cases e with
  | const l => exact spreads_constant hs _ l
  | param p => exact spreads_parameter hs _ p
  | member target p =>
    obtain ⟨hp, htarget⟩ := Bool.and_eq_true_iff.1 he
    exact spreads_member hv hs _ htarget hp
  | binary op l r =>
    obtain ⟨hl, hr⟩ := Bool.and_eq_true_iff.1 he
    exact spreads_binary hv hs _ op hl hr
  | unary op operand =>
    have hoperand : operand.isPlain reads = true := he
    exact spreads_unary hv hs _ op hoperand
  | cond test yes no =>
    obtain ⟨hty, hn⟩ := Bool.and_eq_true_iff.1 he
    obtain ⟨ht, hy⟩ := Bool.and_eq_true_iff.1 hty
    exact spreads_conditional hv hs ht hy hn
  | call m args =>
    obtain ⟨hm, hargs⟩ := Bool.and_eq_true_iff.1 he
    have hall := Expr.isPlain_of_mem hargs
    cases args with
    | nil => cases m <;> exact ensures_reject
    | cons arg args =>
      have harg := hall arg List.mem_cons_self
      cases m with
      | contains => exact spreads_contains hv hs _ harg hall
      | startsWith => exact spreads_like hv hs _ false true harg hall
      | endsWith => exact spreads_like hv hs _ true false harg hall
      | useLeftJoin => exact spreads_widening hs fun hs => hv arg _ harg hs
      | _ => cases hm
  | _ => cases he

end Visit

/-- **A plain expression adds nodes and joins alone.** The induction is on the depth. -/
theorem spreads_visit (fuel : Nat) : Spreads m reads (visit [] fuel) := by
  induction fuel with
  | zero => exact fun e s _ _ => ensures_reject
  | succ fuel ih => exact fun e s he hs => spreads_step ih hs he

end Compile

end EntityQuery
