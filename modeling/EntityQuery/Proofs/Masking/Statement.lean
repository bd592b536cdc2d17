import EntityQuery.Compile.Statement
import EntityQuery.Proofs.Masking.Shape
import EntityQuery.Proofs.Masking.Text

/-!
The text of a compiled query does not depend on the contents of its constants.

* `blind_visit`: by induction on the nesting, the compilation of any expression is blind.
* `compile_mask`: a query and its mask fail with one fault, or have statements that are alike.
* `compile_eq_of_mask_eq`: queries with one mask have one text in every dialect, one layout, and bind
  values of the same variants.
-/

namespace EntityQuery

open Sql

namespace Compile

/-! ### The columns of a result -/

lemma blind_shownColumns (entity : String) :
    Blind Eq (shownColumns entity) (shownColumns entity) := by
  refine .get_bind fun s t hs => ?_
  have hreads : s.mapping.readsKeyOf = t.mapping.readsKeyOf := by
    funext p
    rw [← s.mapping.readsKeyOf_mask, hs.mapping, t.mapping.readsKeyOf_mask]
  dsimp only
  rw [hreads]
  refine blind_ask.seq fun simple => blind_ask.seq fun all => ?_
  exact .mapM (List.map_id _).symm fun p => blind_ask.seq fun column => .pure rfl

lemma blind_selectColumns (r : RequestId) (a : AliasId) (newElement : Bool)
    (columns : List (PropertyRef × String)) :
    Blind Eq (selectColumns r a newElement columns) (selectColumns r a newElement columns) := by
  induction columns generalizing newElement with
  | nil => exact .pure rfl
  | cons column columns ih =>
    refine (blind_add rfl).seq fun n => ?_
    exact (blind_edit fun g => g.pushItem_mask r _).seq fun _ => ih false

lemma blind_selectRow (r : RequestId) (a : AliasId) :
    Blind Eq (selectRow r a) (selectRow r a) := by
  refine blind_graph.bind fun g h hg => ?_
  rw [hg.aliasOf]
  split
  · exact (blind_shownColumns _).seq fun columns => blind_selectColumns r a true columns
  · exact .pure rfl

lemma blind_selectGroups (e e' : Expr) (r : RequestId) (newElement : Bool)
    (keys : List (NodeId × Option PropertyRef)) :
    Blind Eq (selectGroups e r newElement keys) (selectGroups e' r newElement keys) := by
  induction keys generalizing newElement with
  | nil => exact .pure rfl
  | cons key keys ih =>
    refine (blind_duplicate e e' _).seq fun n => ?_
    exact (blind_edit fun g => g.pushItem_mask r _).seq fun _ => ih false

lemma blind_expandItem (r : RequestId) (i : Item) :
    Blind Eq (expandItem r i) (expandItem r i) := by
  refine blind_graph.bind fun g h hg => ?_
  have hpush : Blind Eq (edit (·.pushItem r i)) (edit (·.pushItem r i)) :=
    blind_edit fun g => g.pushItem_mask r i
  rcases hg.node_eq_or_const i.node with hn | ⟨v, v', hn, hn'⟩
  · rw [hn]
    split
    · rw [hg.aliasOf]
      split
      · exact blind_selectRow r _
      · exact hpush
    · exact hpush
  · rw [hn, hn']
    exact hpush

lemma blind_declareColumns (e e' : Expr) (r : RequestId) :
    Blind Eq (declareColumns e r) (declareColumns e' r) := by
  refine (blind_request r).seq fun q => ?_
  split
  · split
    · exact blind_selectGroups e e' r true _
    · split
      · exact blind_selectRow r _
      · exact .pure rfl
  · refine (blind_edit fun g => g.clearItems_mask r).seq fun _ => ?_
    exact .forM (List.map_id _).symm fun i => blind_expandItem r i
  · exact .pure rfl

/-! ### Loading hints -/

lemma blind_hintPath (e e' path : Expr) :
    Blind Eq (hintPath e path) (hintPath e' path.mask) := by
  fun_induction hintPath e path with
  | case1 target p ih => exact ih.seq fun path => .pure rfl
  | case2 arg ih => exact ih
  | case3 p => exact .pure rfl
  | case4 other hmember hfirst hparam =>
    have hmask : hintPath e' other.mask = reject e' (.notAPath other.mask.text) := by
      cases other with
      | member target p => exact absurd rfl (hmember target p)
      | param p => exact absurd rfl (hparam p)
      | call m args =>
        by_cases hm : m = .first
        · subst hm
          match args with
          | [] => rfl
          | [arg] => exact absurd rfl (hfirst arg)
          | _ :: _ :: _ => rfl
        · rw [Expr.mask_call]
          unfold hintPath
          split
          · cases ‹Expr.call m _ = _›
          · rename_i hcall
            exact absurd (Expr.call.inj hcall).1 hm
          · cases ‹Expr.call m _ = _›
          · rfl
      | _ => rfl
    rw [hmask]
    exact .reject rfl

section Visit

variable {visit : Visit} (hv : BlindVisit visit)
include hv

lemma blind_hint (e e' : Expr) (m : Method) (arg : Expr) {args args' : List Expr}
    (hargs : args'[1]? = args[1]?.map Expr.mask) :
    Blind Eq (hint visit e m arg args) (hint visit e' m arg.mask args') := by
  refine (blind_argument e e' hargs).bind ?_
  rintro f _ rfl
  cases f with
  | lambda ps body =>
    refine (blind_hintPath e e' body).seq fun path => ?_
    split
    · exact .reject rfl
    · refine (hv arg).seq fun result => ?_
      refine Blind.seq (.modify fun s t hs => { hs with hints := by rw [hs.hints] }) fun _ => ?_
      exact .pure rfl
  | _ => exact .reject rfl

/-! ### Expressions -/

lemma blind_operator (e : Expr) (m : Method) (arg : Expr) {args args' : List Expr}
    (hargs : args'[1]? = args[1]?.map (Expr.maskSecond m)) :
    Blind Eq (operator visit e m arg args) (operator visit e.mask m arg.mask args') := by
  cases m with
  | skip => exact blind_skip hv e e.mask arg hargs
  | take => exact blind_take hv e e.mask arg hargs
  | «where» => exact blind_filter hv hargs e e.mask arg
  | first => exact blind_first hv hargs e e.mask arg
  | distinct => exact blind_distinct hv e e.mask arg
  | orderBy => exact blind_order hv hargs e e.mask true true arg
  | orderByDescending => exact blind_order hv hargs e e.mask true false arg
  | thenBy => exact blind_order hv hargs e e.mask false true arg
  | thenByDescending => exact blind_order hv hargs e e.mask false false arg
  | contains => exact blind_contains hv hargs e e.mask arg
  | startsWith => exact blind_like hv hargs e e.mask false true arg
  | endsWith => exact blind_like hv hargs e e.mask true false arg
  | select => exact blind_select hv e e.mask false arg hargs
  | selectMany => exact blind_select hv e e.mask true arg hargs
  | groupBy => exact blind_groupBy hv e arg hargs
  | count => exact blind_aggregate hv e .count arg hargs
  | sum => exact blind_aggregate hv e .sum arg hargs
  | average => exact blind_aggregate hv e .average arg hargs
  | min => exact blind_aggregate hv e .min arg hargs
  | max => exact blind_aggregate hv e .max arg hargs
  | any => exact blind_any hv e e.mask arg hargs
  | insert => exact blind_insert hv hargs e arg
  | update => exact blind_update hv hargs e arg
  | delete => exact blind_delete hv e arg
  | eagerLoad => exact blind_hint hv e e.mask _ arg hargs
  | lazyLoad => exact blind_hint hv e e.mask _ arg hargs
  | batchLazyLoad => exact blind_hint hv e e.mask _ arg hargs
  | dontLoad => exact blind_hint hv e e.mask _ arg hargs
  | useLeftJoin => exact blind_widening true (hv arg)
  | named name => exact .reject rfl

omit hv in
lemma call_cons (e : Expr) (m : Method) (arg : Expr) (rest : List Expr) :
    call visit e m (arg :: rest) = operator visit e m arg (arg :: rest) := by cases m <;> rfl

lemma blind_call (m : Method) (args : List Expr) :
    Blind Eq (call visit (.call m args) m args)
      (call visit (Expr.mask (.call m args)) m (Expr.maskArgs m args)) := by
  have hsecond := Expr.maskArgs_second m args
  cases args with
  | nil =>
    rw [Expr.maskArgs_nil]
    cases m <;> exact .reject rfl
  | cons arg rest =>
    obtain ⟨rest', hargs, -⟩ := Expr.maskArgs_cons m arg rest
    rw [hargs] at hsecond ⊢
    rw [call_cons, call_cons]
    exact blind_operator hv _ m arg hsecond

lemma blind_step (e : Expr) : Blind Eq (step visit e) (step visit e.mask) := by
  cases e with
  | source entity => exact blind_source entity
  | const l => exact blind_constant _ _ l
  | param p => exact blind_parameter _ _ p
  | member target p => exact blind_member hv _ _ target p
  | key grouping => exact blind_key hv _ _ grouping
  | binary op l r => exact blind_binary hv _ _ op l r
  | unary op operand => exact blind_unary hv _ _ op operand
  | cond test yes no => exact blind_conditional hv test yes no
  | call m args => exact blind_call hv m args
  | lambda ps body => exact .reject rfl
  | new type members => exact .reject rfl
  | init type bindings => exact .reject rfl

end Visit

/-- **The compilation of an expression does not look at the contents of its constants.** -/
theorem blind_visit (fuel : Nat) : BlindVisit (visit [] fuel) := by
  induction fuel with
  | zero => exact fun e => .reject rfl
  | succ fuel ih => exact fun e => blind_step ih e

lemma blind_root (e : Expr) : Blind Eq (root [] e) (root [] e.mask) := by
  have hroot : Blind Eq
      (do let _ ← visit [] e.depth e
          let r := (← graph).outermost (← active e)
          declareColumns e r
          return r)
      (do let _ ← visit [] e.mask.depth e.mask
          let r := (← graph).outermost (← active e.mask)
          declareColumns e.mask r
          return r) := by
    rw [Expr.depth_mask]
    refine (blind_visit e.depth e).seq fun _ => blind_graph.bind fun g h hg => ?_
    refine (blind_active e e.mask).seq fun r => ?_
    rw [hg.outermost]
    exact (blind_declareColumns e e.mask _).seq fun _ => .pure rfl
  cases e with
  | source entity => exact hroot
  | call m args => exact hroot
  | _ => exact .reject rfl

end Compile

/-! ### Statements -/

/-- Statements that differ in the contents of constants only. -/
structure Statement.Alike (s t : Statement) : Prop where
  root : s.root = t.root
  graph : s.graph.Alike t.graph

namespace Statement.Alike

variable {s t : Statement}

lemma layout (h : s.Alike t) : s.layout = t.layout := by
  have hrequest : s.request = t.request := by
    rw [request, request, h.root, h.graph.request]
  rw [Statement.layout, Statement.layout, hrequest]

lemma write? (h : s.Alike t) (d : Dialect) :
    (s.write? d).map Written.mask = (t.write? d).map Written.mask := by
  rw [Statement.write?, Statement.write?, ← Graph.writeRequest?_mask, ← Graph.writeRequest?_mask,
    h.graph, h.root]

/-- The text, and the variants of the bound values. -/
lemma write?_variants (h : s.Alike t) (d : Dialect) :
    (s.write? d).map (fun w => (w.sql, w.params.map Value.variant)) =
      (t.write? d).map (fun w => (w.sql, w.params.map Value.variant)) := by
  have hmask : ∀ o : Option Written, o.map (fun w => (w.sql, w.params.map Value.variant)) =
      (o.map Written.mask).map fun w => (w.sql, w.params.map Value.variant) := by
    intro o
    cases o with
    | none => rfl
    | some w => simp [Written.mask]
  rw [hmask, h.write? d, ← hmask]

end Statement.Alike

/-- A query and its mask fail with one fault, or have statements that are alike. -/
lemma Mapping.compile_mask (m : Mapping) (e : Expr) :
    (∃ f f', (m.compile e).1 = .error f ∧ (m.compile e.mask).1 = .error f' ∧
      f.fault = f'.fault) ∨
    ∃ s t, (m.compile e).1 = .ok s ∧ (m.compile e.mask).1 = .ok t ∧ s.Alike t := by
  have hrun := Compile.blind_root e { mapping := m } { mapping := m }
    ⟨rfl, rfl, rfl, rfl, rfl, rfl, rfl⟩
  unfold compile compileWith
  generalize (Compile.root [] e).run.run { mapping := m } = o at hrun
  generalize (Compile.root [] e.mask).run.run { mapping := m } = o' at hrun
  cases hrun with
  | ok hroot hs => exact .inr ⟨_, _, rfl, rfl, hroot, hs.graph⟩
  | error hf => exact .inl ⟨_, _, rfl, rfl, hf⟩

/-- **Queries that differ in the contents of constants only have one text.** They fail with one
fault; or both have a statement, with the same layout, and in every dialect with the same text and
with bound values of the same variants. -/
theorem Mapping.compile_eq_of_mask_eq (m : Mapping) {e e' : Expr} (h : e.mask = e'.mask) :
    (∃ f f', (m.compile e).1 = .error f ∧ (m.compile e').1 = .error f' ∧ f.fault = f'.fault) ∨
    ∃ s s', (m.compile e).1 = .ok s ∧ (m.compile e').1 = .ok s' ∧ s.layout = s'.layout ∧
      ∀ d : Dialect, (s.write? d).map (fun w => (w.sql, w.params.map Value.variant)) =
        (s'.write? d).map (fun w => (w.sql, w.params.map Value.variant)) := by
  have he := m.compile_mask e
  have he' := m.compile_mask e'
  rw [← h] at he'
  rcases he with ⟨f, g, hf, hg, hfg⟩ | ⟨s, t, hs, ht, hst⟩
  · rcases he' with ⟨f', g', hf', hg', hfg'⟩ | ⟨s', t', hs', ht', hst'⟩
    · obtain rfl : g = g' := Except.error.inj (hg.symm.trans hg')
      exact .inl ⟨f, f', hf, hf', hfg.trans hfg'.symm⟩
    · rw [hg] at ht'
      cases ht'
  · rcases he' with ⟨f', g', hf', hg', hfg'⟩ | ⟨s', t', hs', ht', hst'⟩
    · rw [ht] at hg'
      cases hg'
    · obtain rfl : t = t' := Except.ok.inj (ht.symm.trans ht')
      exact .inr ⟨s, s', hs, hs', hst.layout.trans hst'.layout.symm,
        fun d => (hst.write?_variants d).trans (hst'.write?_variants d).symm⟩

/-- People with a name, an age and a boss. -/
def Mapping.staff : Mapping where
  catalog := ⟨[⟨"Person", "PERSON", some "Id",
    [⟨"Id", "ID", .scalar .long false none⟩, ⟨"Name", "NAME", .scalar .varChar false none⟩,
      ⟨"Age", "AGE", .scalar .int true none⟩, ⟨"Boss", "IDFK_BOSS", .reference "Person"⟩]⟩]⟩

/-- The people whose boss has a name that starts with `text`, and whose age is null or one of two
numbers. -/
def Expr.staffQuery (text : String) (a b : Int64) : Expr :=
  let p : Expr := .param ⟨⟨1⟩, "p", .entity "Person"⟩
  let name : PropertyRef := ⟨"Person", "Name", .scalar .varChar false⟩
  let age : PropertyRef := ⟨"Person", "Age", .scalar .int false⟩
  let boss : PropertyRef := ⟨"Person", "Boss", .entity "Person"⟩
  let starts : Expr :=
    .call .startsWith [.member (.member p boss) name, .const (.value (.string text))]
  let among : Expr := .call .contains [.const (.list [.int a, .null, .int b]), .member p age]
  let missing : Expr := .binary .equal (.member p age) (.const (.value .null))
  .call .take [.call .where [.source "Person", .lambda [⟨⟨1⟩, "p", .entity "Person"⟩]
    (.binary .and starts (.binary .or among missing))], .const (.value (.int 3))]

/-- Hostile contents change neither the text nor the variants of the bound values. -/
theorem Mapping.compile_eq_of_mask_eq_staff :
    (Expr.staffQuery "A" 1 2).mask = (Expr.staffQuery "' OR $1 = '" 7 (-1)).mask ∧
    ((∃ f f', (staff.compile (.staffQuery "A" 1 2)).1 = .error f ∧
        (staff.compile (.staffQuery "' OR $1 = '" 7 (-1))).1 = .error f' ∧ f.fault = f'.fault) ∨
      ∃ s s', (staff.compile (.staffQuery "A" 1 2)).1 = .ok s ∧
        (staff.compile (.staffQuery "' OR $1 = '" 7 (-1))).1 = .ok s' ∧ s.layout = s'.layout ∧
        ∀ d : Dialect, (s.write? d).map (fun w => (w.sql, w.params.map Value.variant)) =
          (s'.write? d).map (fun w => (w.sql, w.params.map Value.variant))) :=
  ⟨rfl, compile_eq_of_mask_eq staff rfl⟩

end EntityQuery
