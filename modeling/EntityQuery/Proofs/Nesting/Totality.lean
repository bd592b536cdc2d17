import EntityQuery.Proofs.Filters.Growth
import EntityQuery.Sql.Copy

/-!
Copies of values in graphs in which no request is nested in itself.

* `Succeeds`: copying succeeds, whatever the graph is that it adds to.
* No rule for a copy fails by itself: a copy of a node or of a request fails only where the copy of a
  part does, and with it only where a request is met inside itself.
-/

namespace EntityQuery.Sql

namespace Copy

variable {α β : Type}

/-! ### Steps that succeed -/

/-- Copying succeeds from every graph. -/
def Succeeds (x : Copy α) : Prop := ∀ g, (x.run g).isSome = true

lemma succeeds_pure (a : α) : Succeeds (pure a : Copy α) := fun _ => rfl

lemma succeeds_lift (x : Build α) : Succeeds (liftM x : Copy α) := fun _ => rfl

lemma succeeds_modify (f : Graph → Graph) : Succeeds (modify f : Copy PUnit) := fun _ => rfl

lemma Succeeds.bind {x : Copy α} {k : α → Copy β} (hx : Succeeds x) (hk : ∀ a, Succeeds (k a)) :
    Succeeds (x >>= k) := by
  intro g
  obtain ⟨⟨a, h⟩, hrun⟩ := Option.isSome_iff_exists.1 (hx g)
  rw [StateT.run_bind, hrun]
  exact hk a h

lemma Succeeds.map {x : Copy α} (hx : Succeeds x) (f : α → β) : Succeeds (f <$> x) := by
  rw [map_eq_pure_bind]
  exact hx.bind fun a => succeeds_pure (f a)

lemma succeeds_forM {f : α → Copy PUnit} (as : List α) (hf : ∀ a ∈ as, Succeeds (f a)) :
    Succeeds (as.forM f) := by
  induction as with
  | nil => exact succeeds_pure PUnit.unit
  | cons a as ih =>
    refine (hf a List.mem_cons_self).bind fun _ => ?_
    exact ih fun b hb => hf b (List.mem_cons_of_mem _ hb)

lemma succeeds_forM_option {f : α → Copy PUnit} (o : Option α) (hf : ∀ a ∈ o, Succeeds (f a)) :
    Succeeds (o.forM f) := by
  cases o with
  | none => exact succeeds_pure PUnit.unit
  | some a => exact hf a rfl

lemma succeeds_mapM {f : α → Copy β} (as : List α) (hf : ∀ a ∈ as, Succeeds (f a)) :
    Succeeds (as.mapM f) := by
  induction as with
  | nil => exact succeeds_pure []
  | cons a as ih =>
    rw [List.mapM_cons]
    refine (hf a List.mem_cons_self).bind fun b => ?_
    exact (ih fun c hc => hf c (List.mem_cons_of_mem _ hc)).bind fun bs => succeeds_pure (b :: bs)

lemma succeeds_foldlM {f : β → α → Copy β} (as : List α) (hf : ∀ a ∈ as, ∀ b, Succeeds (f b a)) (b : β) :
    Succeeds (as.foldlM f b) := by
  induction as generalizing b with
  | nil => exact succeeds_pure b
  | cons a as ih =>
    rw [List.foldlM_cons]
    refine (hf a List.mem_cons_self b).bind fun b' => ?_
    exact ih (fun c hc => hf c (List.mem_cons_of_mem _ hc)) b'

end Copy

namespace Swap

open Copy

variable {part : NodeId → Renames → Copy NodeId} {query : RequestId → Renames → Copy RequestId}

/-! ### Rules -/

lemma succeeds_copyNode (s : Swap) {n : Node} (hpart : ∀ c ∈ n.children, ∀ ren, Succeeds (part c ren))
    (hquery : ∀ r, n = .sub r → ∀ ren, Succeeds (query r ren)) (ren : Renames) :
    Succeeds (s.copyNode part query n ren) := by
  cases n with
  | column a c => exact succeeds_lift _
  | row a => exact succeeds_lift _
  | const v => exact succeeds_lift _
  | unary op operand =>
    cases operand with
    | none => exact succeeds_lift _
    | some e => exact (hpart e (by simp [Node.children]) ren).bind fun _ => succeeds_lift _
  | binary op l r =>
    refine (hpart l (by simp [Node.children]) ren).bind fun _ => ?_
    exact (hpart r (by simp [Node.children]) ren).bind fun _ => succeeds_lift _
  | isIn e vs =>
    refine (hpart e (by simp [Node.children]) ren).bind fun _ => ?_
    refine (succeeds_mapM vs fun v hv => hpart v (by simp [Node.children, hv]) ren).bind fun _ => ?_
    exact succeeds_lift _
  | cond t y n =>
    refine (hpart t (by simp [Node.children]) ren).bind fun _ => ?_
    refine (hpart y (by simp [Node.children]) ren).bind fun _ => ?_
    exact (hpart n (by simp [Node.children]) ren).bind fun _ => succeeds_lift _
  | sub r => exact (hquery r rfl ren).bind fun _ => succeeds_lift _

variable {g : Graph}

lemma succeeds_copySource (s : Swap) {a : AliasId}
    (hquery : ∀ r, (g.aliasOf a).origin = .request r → ∀ ren, Succeeds (query r ren)) (ren : Renames) :
    Succeeds (s.copySource g query ren a) := by
  unfold copySource
  dsimp only
  cases horigin : (g.aliasOf a).origin with
  | table name =>
    refine (succeeds_pure _).bind fun _ => ?_
    exact (succeeds_lift _).bind fun _ => succeeds_pure _
  | request r =>
    refine ((hquery r horigin ren).map _).bind fun _ => ?_
    exact (succeeds_lift _).bind fun _ => succeeds_pure _

lemma succeeds_copyRequest (s : Swap) {r : RequestId}
    (hpart : ∀ n ∈ (g.request r).clauseNodes, ∀ ren, Succeeds (part n ren))
    (hquery : ∀ a ∈ (g.request r).sources, ∀ q, (g.aliasOf a).origin = .request q →
      ∀ ren, Succeeds (query q ren)) (ren : Renames) :
    Succeeds (s.copyRequest g part query r ren) := by
  have hput : ∀ n ∈ (g.request r).clauseNodes, ∀ ren, ∀ f : NodeId → Graph → Graph,
      Succeeds (do let m ← part n ren; modify (f m)) := by
    intro n hn ren f
    exact (hpart n hn ren).bind fun m => succeeds_modify _
  simp only [Request.mem_clauseNodes] at hput hpart
  unfold copyRequest
  refine (succeeds_lift _).bind fun new => ?_
  refine (succeeds_foldlM _ (fun a ha ren => ?_) _).bind fun ren => ?_
  · exact s.succeeds_copySource (hquery a ha) ren
  refine (succeeds_modify _).bind fun _ => ?_
  refine (succeeds_forM _ fun j hj => hput _ (.inl ⟨j, hj, rfl⟩) ren _).bind fun _ => ?_
  refine (succeeds_forM _ fun i hi => hput _ (.inr (.inl ⟨i, hi, rfl⟩)) ren _).bind fun _ => ?_
  refine (succeeds_forM_option _ fun n hn => hput n (by simp_all) ren _).bind fun _ => ?_
  refine (succeeds_forM_option _ fun n hn => hput n (by simp_all) ren _).bind fun _ => ?_
  refine (succeeds_forM _ fun k hk => hput k.1 ?_ ren _).bind fun _ => ?_
  · simp [(List.of_mem_zip hk).1]
  refine (succeeds_forM _ fun o ho => hput o.node ?_ ren _).bind fun _ => ?_
  · exact .inr (.inr (.inr (.inr (.inr (.inl ⟨o, ho, rfl⟩)))))
  refine (succeeds_forM _ fun a ha => ?_).bind fun _ => succeeds_pure new
  have hassigned : ∀ n, n = a.column ∨ n = a.value → ∀ ren, Succeeds (part n ren) := fun n hn =>
    hpart n (.inr (.inr (.inr (.inr (.inr (.inr ⟨a, ha, hn⟩))))))
  refine (hassigned a.column (.inl rfl) ren).bind fun _ => ?_
  exact (hassigned a.value (.inr rfl) ren).bind fun _ => succeeds_modify _

end Swap

namespace Graph

open Copy

/-- **Every value of a graph without nested circles has a copy.** -/
theorem copy_isSome {g : Graph} (ho : g.Ordered) (hg : g.Acyclic) (s : Swap) (n : NodeId) :
    ((Build.copy s n).run g).1.isSome = true := by
  have hranked := ranked_rank ho hg
  have htotal : ∀ ren, Succeeds (g.readNode (s.copying g) n ren) :=
    (readWithin_induction (P := fun x : Renames → Copy NodeId => ∀ ren, Succeeds (x ren))
      (Q := fun x : Renames → Copy RequestId => ∀ ren, Succeeds (x ren))
      hranked.falls (fun part query n hpart hquery => s.succeeds_copyNode hpart hquery)
      (fun part query r hpart hquery => s.succeeds_copyRequest hpart fun a ha =>
        hquery a (List.mem_append_left _ ha)) g.height []).1 n
      ⟨hranked.lt_height _, by simp⟩
  obtain ⟨⟨m, h⟩, hrun⟩ := Option.isSome_iff_exists.1 (htotal {} g)
  rw [Build.run_copy_eq_some.2 hrun]
  rfl

end Graph

end EntityQuery.Sql
