import EntityQuery.Proofs.Clauses.Steps
import EntityQuery.Proofs.Formulas.Tables

/-!
The rows that filters and orders return.

* `rowsOf_compile_fitting`: clauses return the rows that their plan asks for, out of those from which
  the references that are followed only outside of disjunctions lead to rows.
* `rowsOf_compile_order`: which rows an order returns that are not returned without it, and the other
  way round. A key drops rows at the references that it follows, and a key with a disjunction may bring
  back rows that a filter has dropped.
* `perm_rowsOf_compile_order`: a key that follows no further references only sorts the rows.
-/

namespace EntityQuery

open Sql Store Compile

variable {st : Store} {m : Mapping} {E table : String} {s : CompileState} {p : Plan}
  {log : List Navigation}

/-! ### Clauses that follow references -/

/-- A request over the rows that a plan asks for compiles, and it returns them, out of those from which
the references that are followed only outside of disjunctions lead to rows. -/
theorem Sought.rowsOf_compile (hs : Sought st m E table log p s) (hkeys : st.Keyed)
    (htable : m.catalog.tableName E = .ok table) (hdistinct : p.distinct = false) {e : Expr}
    (he : (∃ entity, e = .source entity) ∨ ∃ method args, e = .call method args)
    (hrun : Runs (visit [] e.depth e) { mapping := m } (.query ⟨0⟩) s) :
    ∃ s, (m.compile e).1 = .ok s ∧ ∃ out : Row → Row,
      s.graph.rowsOf st.engine st.database s.root =
        (p.rows st ((st.database.rows table).filter (Navigation.anchors st log log))).map out ∧
      ∀ row, m.Shows E row (out row) := by
  have hbare := hs.standing.bare
  obtain ⟨t, columns, items, hcompile, hcolumns, ht⟩ := hs.standing.compile_eq htable he hrun
  have hsound := ht.sound hs.standing.fits.sound
  have hμ := Graph.ranked_rank hsound.ordered hsound.acyclic
  have hrequest := ht.request
  rw [hbare.items, List.nil_append] at hrequest
  have hbase : (t.graph.request ⟨0⟩).base = some ⟨0⟩ := by rw [hrequest, hbare.base]
  have hitems : (t.graph.request ⟨0⟩).items = items := by rw [hrequest]
  have hseeks : Seeks st s (t.graph.request ⟨0⟩) p := by
    have h := hs.seeks
    rw [hrequest]
    exact ⟨h.skip, h.take, h.distinct, h.filter, h.orders⟩
  obtain ⟨place, hjoined, hplace, hview⟩ := hs.standing.joined_eq hs.charted hkeys hμ ht.kept hbase
    (q := t.graph.request ⟨0⟩) (by rw [hrequest]) fun _ => []
  refine ⟨_, hcompile, fun row => (t.graph.evaluator st.engine st.database).shown (t.graph.request ⟨0⟩)
    (place row), ?_, fun row => ?_⟩
  · rw [Graph.rowsOf, t.graph.query_eq hμ]
    refine hseeks.request_eq hμ hplace hview (by rw [hrequest, hbare.kind]) (by rw [hrequest, hbare.groups])
      (by rw [hrequest, hbare.having]) (fun i hi => ?_) _ hjoined (fun _ => rfl)
      fun h => absurd h (by simp [hdistinct])
    exact Selected.summary st ht hμ (hitems ▸ hi)
  · have hshows := Selected.shows st ht hμ hcolumns hbase (place row)
    rw [hplace, ← hitems] at hshows
    exact hshows

namespace Clause

/-- Whether a clause filters or sorts. -/
def sifts : Clause → Bool
  | .filter _ | .order .. => true
  | .skip _ | .take _ | .distinct => false

/-- The references that clauses follow, those of orders that others have replaced as well. -/
def followed (cs : List Clause) : List Navigation := cs.flatMap reads

/-- Whether clauses return a row: it passes their filters, and every chain of references that they follow
only outside of disjunctions leads to a row. -/
def returns (st : Store) (cs : List Clause) (row : Row) : Bool :=
  (Plan.ofClauses cs).passes st row && Navigation.anchors st (followed cs) (followed cs) row

variable {cs : List Clause}

lemma ofClauses_append_singleton (c : Clause) : Plan.ofClauses (cs ++ [c]) = (Plan.ofClauses cs).add c := by
  simp [Plan.ofClauses, List.foldl_append]

/-- Filters and orders cut out no page, and they drop no repetitions. -/
lemma plan_of_sifts (hcs : ∀ c ∈ cs, c.sifts = true) :
    (Plan.ofClauses cs).isPaged = false ∧ (Plan.ofClauses cs).distinct = false := by
  induction cs using List.reverseRecOn with
  | nil => exact ⟨rfl, rfl⟩
  | append_singleton cs c ih =>
    obtain ⟨hpaged, hdistinct⟩ := ih fun c hc => hcs c (List.mem_append_left _ hc)
    have hc := hcs c (by simp)
    rw [ofClauses_append_singleton]
    cases c with
    | filter _ => exact ⟨hpaged, hdistinct⟩
    | order _ _ _ => exact ⟨hpaged, hdistinct⟩
    | _ => cases hc

end Clause

section Rows

variable (st) (hkeys : st.Keyed) (hc : st.catalog.validate = .ok ()) (hm : m.equivalents = [])
  (hcatalog : m.catalog = st.catalog) (htable : m.catalog.tableName E = .ok table)
include hkeys hc hm hcatalog htable

/-- **Filters and orders return the rows that pass the filters and from which the references that are
followed only outside of disjunctions lead to rows**, sorted by the last orders. -/
theorem rowsOf_compile_sifted {cs : List Clause}
    (hcs : ∀ c ∈ cs, c.sifts = true ∧ c.fits st.catalog E = true) :
    ∃ s, (m.compile (Clause.query E cs)).1 = .ok s ∧ ∃ (rows : List Row) (out : Row → Row),
      s.graph.rowsOf st.engine st.database s.root = rows.map out ∧
      rows = ((st.database.rows table).filter (Clause.returns st cs)).mergeSort
        ((Plan.ofClauses cs).before st) ∧
      ∀ row, m.Shows E row (out row) := by
  obtain ⟨hpaged, hdistinct⟩ := Clause.plan_of_sifts fun c hc => (hcs c hc).1
  obtain ⟨s, hrun, hs⟩ := runs_sought hc hm hcatalog htable (fun c hc => (hcs c hc).2) le_rfl
  obtain ⟨statement, hstatement, out, hrows, hout⟩ := hs.rowsOf_compile hkeys htable hdistinct
    (Clause.source_or_call cs) hrun
  refine ⟨statement, hstatement, _, out, hrows, ?_, hout⟩
  rw [Plan.rows, Plan.page_of_not_paged hpaged, Plan.found, List.filter_filter]
  rfl

end Rows

/-! ### Further orders -/

namespace Clause

variable {cs : List Clause} {restart ascending : Bool} {key : Lambda} {row : Row}

/-- Whether an order brings back a row: it passes the filters before the order, which drop it at a chain of
references that the key follows under a disjunction. -/
def regains (st : Store) (cs : List Clause) (key : Lambda) (row : Row) : Bool :=
  (Plan.ofClauses cs).passes st row && !Navigation.anchors st (followed cs) (followed cs) row &&
    Navigation.anchors st (followed cs ++ key.reads) (followed cs ++ key.reads) row

lemma returns_order : returns st (cs ++ [.order restart ascending key]) row =
    ((Plan.ofClauses cs).passes st row &&
      Navigation.anchors st (followed cs ++ key.reads) (followed cs ++ key.reads) row) := by
  have hfollowed : followed (cs ++ [.order restart ascending key]) = followed cs ++ key.reads := by
    simp [followed, reads]
  rw [returns, hfollowed, ofClauses_append_singleton]
  rfl

/-- A returned row stays if the chains lead to rows that the key follows. -/
lemma returns_order_and : (returns st (cs ++ [.order restart ascending key]) row && returns st cs row) =
    (returns st cs row && Navigation.anchors st (followed cs ++ key.reads) key.reads row) := by
  rw [returns_order, Navigation.anchors_append, returns]
  cases hanchored : Navigation.anchors st (followed cs) (followed cs) row with
  | false => simp
  | true =>
    have hmono : Navigation.anchors st (followed cs ++ key.reads) (followed cs) row = true :=
      Navigation.anchors_mono (fun path h => by simp [Navigation.loosens_append, h]) hanchored
    rw [hmono]
    cases (Plan.ofClauses cs).passes st row <;> simp

/-- Any other row comes back. -/
lemma returns_order_and_not : (returns st (cs ++ [.order restart ascending key]) row &&
    !returns st cs row) = regains st cs key row := by
  rw [returns_order, returns, regains]
  cases (Plan.ofClauses cs).passes st row <;> simp [Bool.and_comm]

/-- The rows that an order returns: those before it that it keeps, and those that it brings back. -/
lemma perm_filter_returns_order (rows : List Row) :
    (rows.filter (returns st (cs ++ [.order restart ascending key]))).Perm
      ((rows.filter (returns st cs)).filter
          (Navigation.anchors st (followed cs ++ key.reads) key.reads) ++
        rows.filter (regains st cs key)) := by
  refine (List.filter_append_perm (returns st cs) _).symm.trans (List.Perm.of_eq ?_)
  rw [List.filter_filter, List.filter_filter, List.filter_filter]
  congr 2
  · funext row
    rw [Bool.and_comm, returns_order_and, Bool.and_comm]
  · funext row
    rw [Bool.and_comm, returns_order_and_not]

/-- A key follows no further references. -/
def Settled (cs : List Clause) (key : Lambda) : Prop :=
  ∀ e ∈ key.reads, e.wide = false ∧ (e.path = [] ∨ ∃ e' ∈ followed cs, e.path <+: e'.path)

/-- A key that follows no further references drops no row and brings none back. -/
lemma returns_order_of_settled (hkey : Settled cs key) :
    returns st (cs ++ [.order restart ascending key]) row = returns st cs row := by
  have hloosens : ∀ path, Navigation.loosens (followed cs ++ key.reads) path =
      Navigation.loosens (followed cs) path := by
    intro path
    have hnarrow : Navigation.loosens key.reads path = false := by
      rw [Navigation.loosens, List.any_eq_false]
      exact fun e he => by simp [(hkey e he).1]
    rw [Navigation.loosens_append, hnarrow, Bool.or_false]
  rw [returns_order, returns, Bool.eq_iff_iff, Bool.and_eq_true, Bool.and_eq_true]
  refine and_congr_right fun _ => ?_
  simp only [Navigation.anchors_eq_true, hloosens]
  constructor
  · exact fun h e he => h e (List.mem_append_left _ he)
  · intro h e he path hpath hne hloose
    rcases List.mem_append.1 he with he | he
    · exact h e he path hpath hne hloose
    · rcases (hkey e he).2 with hnil | ⟨e', he', hprefix⟩
      · rw [hnil, List.prefix_nil] at hpath
        exact absurd hpath hne
      · exact h e' he' path (hpath.trans hprefix) hne hloose

end Clause

section Orders

variable (m : Mapping) (hm : m.equivalents = []) (hc : m.catalog.validate = .ok ()) (e : Engine)
  (db : Database) (hkeys : Store.Keyed ⟨m.catalog, e, db⟩) {E table : String}
  (htable : m.catalog.tableName E = .ok table) (cs : List Clause)
  (hcs : ∀ c ∈ cs, c.sifts = true ∧ c.fits m.catalog E = true) (restart ascending : Bool) (key : Lambda)
  (hkey : key.fits m.catalog E = true)
include hm hc hkeys htable hcs hkey

/-- The rows that are returned without an order and with it. -/
lemma rowsOf_compile_sifted_order :
    ∃ s s', (m.compile (Clause.query E cs)).1 = .ok s ∧
      (m.compile ((Clause.order restart ascending key).expr (Clause.query E cs))).1 = .ok s' ∧
      ∃ (rows rows' : List Row) (out out' : Row → Row),
        s.graph.rowsOf e db s.root = rows.map out ∧ s'.graph.rowsOf e db s'.root = rows'.map out' ∧
        rows.Perm ((db.rows table).filter (Clause.returns ⟨m.catalog, e, db⟩ cs)) ∧
        rows'.Perm ((db.rows table).filter
          (Clause.returns ⟨m.catalog, e, db⟩ (cs ++ [.order restart ascending key]))) ∧
        ∀ row, m.Shows E row (out row) ∧ m.Shows E row (out' row) := by
  have hcs' : ∀ c ∈ cs ++ [.order restart ascending key], c.sifts = true ∧ c.fits m.catalog E = true := by
    intro c hc
    rcases List.mem_append.1 hc with hc | hc
    · exact hcs c hc
    · rw [List.mem_singleton.1 hc]
      exact ⟨rfl, hkey⟩
  obtain ⟨s, hs, rows, out, hrows, hsorted, hout⟩ :=
    rowsOf_compile_sifted ⟨m.catalog, e, db⟩ hkeys hc hm rfl htable hcs
  obtain ⟨s', hs', rows', out', hrows', hsorted', hout'⟩ :=
    rowsOf_compile_sifted ⟨m.catalog, e, db⟩ hkeys hc hm rfl htable hcs'
  have hquery : Clause.query E (cs ++ [.order restart ascending key]) =
      (Clause.order restart ascending key).expr (Clause.query E cs) := by
    simp [Clause.query, List.foldl_append]
  rw [hquery] at hs'
  exact ⟨s, s', hs, hs', rows, rows', out, out', hrows, hrows', hsorted ▸ List.mergeSort_perm _ _,
    hsorted' ▸ List.mergeSort_perm _ _, fun row => ⟨hout row, hout' row⟩⟩

/-- **An order returns the rows that are returned without it and from which every chain of references that
its key follows leads to a row**, those chains aside that are followed somewhere under a disjunction;
**and it brings back the rows that the filters before it drop only at chains that the key follows under a
disjunction.** -/
theorem rowsOf_compile_order :
    ∃ s s', (m.compile (Clause.query E cs)).1 = .ok s ∧
      (m.compile ((Clause.order restart ascending key).expr (Clause.query E cs))).1 = .ok s' ∧
      ∃ (rows : List Row) (out out' : Row → Row),
        s.graph.rowsOf e db s.root = rows.map out ∧
        rows.Perm ((db.rows table).filter (Clause.returns ⟨m.catalog, e, db⟩ cs)) ∧
        (s'.graph.rowsOf e db s'.root).Perm
          ((rows.filter (Navigation.anchors ⟨m.catalog, e, db⟩ (Clause.followed cs ++ key.reads) key.reads) ++
            (db.rows table).filter (Clause.regains ⟨m.catalog, e, db⟩ cs key)).map out') ∧
        ∀ row, m.Shows E row (out row) ∧ m.Shows E row (out' row) := by
  obtain ⟨s, s', hs, hs', rows, rows', out, out', hrows, hrows', hperm, hperm', hout⟩ :=
    rowsOf_compile_sifted_order m hm hc e db hkeys htable cs hcs restart ascending key hkey
  refine ⟨s, s', hs, hs', rows, out, out', hrows, hperm, ?_, hout⟩
  rw [hrows']
  refine List.Perm.map out' (hperm'.trans ((Clause.perm_filter_returns_order _).trans ?_))
  exact (hperm.symm.filter _).append_right _

/-- **A key that follows no further references only sorts the rows.** -/
theorem perm_rowsOf_compile_order (hsettled : Clause.Settled cs key) :
    ∃ s s', (m.compile (Clause.query E cs)).1 = .ok s ∧
      (m.compile ((Clause.order restart ascending key).expr (Clause.query E cs))).1 = .ok s' ∧
      ∃ (rows : List Row) (out out' : Row → Row), s.graph.rowsOf e db s.root = rows.map out ∧
        (s'.graph.rowsOf e db s'.root).Perm (rows.map out') ∧
        ∀ row, m.Shows E row (out row) ∧ m.Shows E row (out' row) := by
  obtain ⟨s, s', hs, hs', rows, rows', out, out', hrows, hrows', hperm, hperm', hout⟩ :=
    rowsOf_compile_sifted_order m hm hc e db hkeys htable cs hcs restart ascending key hkey
  refine ⟨s, s', hs, hs', rows, out, out', hrows, ?_, hout⟩
  rw [hrows']
  refine List.Perm.map out' (hperm'.trans ?_)
  rw [List.filter_congr fun row _ => Clause.returns_order_of_settled hsettled]
  exact hperm.symm

end Orders

/-! ### People by the names of their bosses -/

namespace People

/-- People whose boss has no name. -/
def unled : List Clause := [.filter ⟨someone, bossless⟩]

/-- Whether the name of the boss is one of two. -/
def led : Lambda := ⟨someone, .or (.compare .equal bossName (.const (.string "Ann")))
  (.compare .equal bossName (.const (.string "Bob")))⟩

end People

/-- The name of the boss is read under a disjunction, so Ann comes back, who has no boss. -/
theorem rowsOf_compile_order_people :
    People.mapping.catalog.validate = .ok () ∧ People.store.Keyed ∧
    (∀ c ∈ People.unled, c.sifts = true ∧ c.fits People.mapping.catalog "Person" = true) ∧
    People.led.fits People.mapping.catalog "Person" = true ∧
    ∃ s s', (People.mapping.compile (Clause.query "Person" People.unled)).1 = .ok s ∧
      (People.mapping.compile
        ((Clause.order true true People.led).expr (Clause.query "Person" People.unled))).1 = .ok s' ∧
      s.graph.rowsOf People.engine People.database s.root = [] ∧
      s'.graph.rowsOf People.engine People.database s'.root = [[("id", .int 1), ("name", .string "Ann")]] := by
  have hcs : ∀ c ∈ People.unled, c.sifts = true ∧ c.fits People.mapping.catalog "Person" = true := by
    decide +kernel
  have hkey : People.led.fits People.mapping.catalog "Person" = true := by decide +kernel
  obtain ⟨s, s', hs, hs', rows, out, out', hrows, hperm, hperm', hout⟩ := rowsOf_compile_order People.mapping
    rfl rfl People.engine People.database People.keyed rfl People.unled hcs true true People.led hkey
  have hnone : (People.database.rows "person").filter
      (Clause.returns ⟨People.mapping.catalog, People.engine, People.database⟩ People.unled) = [] := by
    decide +kernel
  have hback : (People.database.rows "person").filter
      (Clause.regains ⟨People.mapping.catalog, People.engine, People.database⟩ People.unled People.led) =
        [People.person 1 "Ann" .null] := by
    rfl
  rw [hnone] at hperm
  rw [hperm.eq_nil, hback] at hperm'
  refine ⟨rfl, People.keyed, hcs, hkey, s, s', hs, hs', ?_, ?_⟩
  · rw [hrows, hperm.eq_nil]
    rfl
  · rw [List.perm_singleton.1 hperm']
    exact congrArg (fun row => [row]) (hout (People.person 1 "Ann" .null)).2

/-- **The name of the boss as a key drops Ann**, who has no boss: an order need not return the rows that are
returned without it. -/
theorem unled_person_dropped_by_order :
    People.mapping.catalog.validate = .ok () ∧ People.store.Keyed ∧
    Lambda.fits People.mapping.catalog "Person" ⟨People.someone, People.bossName⟩ = true ∧
    ∃ s s', (People.mapping.compile (Clause.query "Person" [])).1 = .ok s ∧
      (People.mapping.compile ((Clause.order true true ⟨People.someone, People.bossName⟩).expr
        (Clause.query "Person" []))).1 = .ok s' ∧
      ¬ (s'.graph.rowsOf People.engine People.database s'.root).Perm
        (s.graph.rowsOf People.engine People.database s.root) := by
  have hkey : Lambda.fits People.mapping.catalog "Person" ⟨People.someone, People.bossName⟩ = true := by
    decide +kernel
  obtain ⟨s, s', hs, hs', rows, rows', out, out', hrows, hrows', hperm, hperm', -⟩ :=
    rowsOf_compile_sifted_order People.mapping rfl rfl People.engine People.database People.keyed rfl []
      (by simp) true true ⟨People.someone, People.bossName⟩ hkey
  refine ⟨rfl, People.keyed, hkey, s, s', hs, hs', fun h => ?_⟩
  have hlength : rows'.length = rows.length := by
    have := h.length_eq
    rwa [hrows, hrows', List.length_map, List.length_map] at this
  rw [hperm.length_eq, hperm'.length_eq] at hlength
  exact absurd hlength (by decide +kernel)

end EntityQuery
