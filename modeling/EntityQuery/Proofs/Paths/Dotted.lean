import EntityQuery.Expr.Path
import EntityQuery.Proofs.Catalog.Validated
import EntityQuery.Proofs.Texts.Pieces
import Mathlib.Data.List.Chain
import Mathlib.Data.List.Induction

/-!
Dotted paths as lists of properties.

* `PropertyRef.Links`: the properties that a list of names runs through, each one a property of the
  entity that the one before leads to. Steps along the names succeed exactly if there is such a
  list, and then take the members of it in turn.
* A path succeeds exactly if its segments are the names of such a list, so that a joint between two
  paths is a joint between two lists.
-/

namespace EntityQuery

/-! ### Properties that follow each other -/

/-- Mapped properties that can be followed one after the other from values of type `t`. -/
structure Catalog.Links (c : Catalog) (t : TypeRef) (ps : List PropertyRef) : Prop where
  mapped : ∀ p ∈ ps, c.property p.owner p.name = .ok p
  first : ∀ p ∈ ps.head?, t = .entity p.owner
  linked : ps.IsChain fun p q => p.type = .entity q.owner

namespace Catalog

variable {c : Catalog} {t : TypeRef} {p : PropertyRef} {ps : List PropertyRef}

lemma Links.nil (c : Catalog) (t : TypeRef) : c.Links t [] where
  mapped := by simp
  first := by simp
  linked := .nil

lemma links_cons : c.Links t (p :: ps) ↔
    c.property p.owner p.name = .ok p ∧ t = .entity p.owner ∧ c.Links p.type ps := by
  constructor
  · intro h
    have hlinked := List.isChain_cons.1 h.linked
    refine ⟨h.mapped p List.mem_cons_self, h.first p rfl, ?_⟩
    exact ⟨fun q hq => h.mapped q (List.mem_cons_of_mem p hq), hlinked.1, hlinked.2⟩
  · rintro ⟨hp, ht, h⟩
    refine ⟨?_, ?_, List.isChain_cons.2 ⟨h.first, h.linked⟩⟩
    · intro q hq
      rcases List.mem_cons.1 hq with rfl | hq
      · exact hp
      · exact h.mapped q hq
    · intro q hq
      rwa [← Option.some.inj (Option.mem_def.1 hq)]

/-- A property is found under its own owner and name. -/
lemma owner_name_of_property {owner name : String} (h : c.property owner name = .ok p) :
    p.owner = owner ∧ p.name = name := by
  obtain ⟨e, he, h⟩ := bind_eq_ok.1 h
  cases hm : e.property? name with
  | none => simp [hm] at h
  | some m =>
    obtain rfl : e.ref m = p := by simpa [hm] using h
    exact ⟨name_of_find? (entity_eq_ok.1 he), (EntityMapping.property?_eq_some hm).2⟩

end Catalog

/-! ### Steps -/

namespace Expr

variable {c : Catalog} {e e' : Expr} {p : PropertyRef} {ps : List PropertyRef}

lemma step_eq_ok {segment : String} : step c e segment = .ok e' ↔
    ∃ p, p.name = segment ∧ c.property p.owner p.name = .ok p ∧ e.type = .entity p.owner ∧
      e' = .member e p := by
  cases ht : e.type with
  | entity owner =>
    cases hp : c.property owner segment with
    | error err =>
      simp only [step, ht, TypeRef.entityName?, hp, reduceCtorEq, TypeRef.entity.injEq, false_iff]
      rintro ⟨p, rfl, h, rfl, -⟩
      rw [hp] at h
      cases h
    | ok p =>
      obtain ⟨rfl, rfl⟩ := Catalog.owner_name_of_property hp
      simp only [step, ht, TypeRef.entityName?, hp, Except.ok.injEq, TypeRef.entity.injEq]
      constructor
      · rintro rfl
        exact ⟨p, rfl, hp, rfl, rfl⟩
      · rintro ⟨q, hname, hq, howner, rfl⟩
        rw [hname, ← howner, hp] at hq
        rw [Except.ok.inj hq]
  | _ => simp [step, ht, TypeRef.entityName?]

/-- Steps along names take the members of properties that follow each other. -/
lemma foldlM_step_eq_ok {names : List String} :
    names.foldlM (step c) e = .ok e' ↔
      ∃ ps, names = ps.map PropertyRef.name ∧ c.Links e.type ps ∧ e' = ps.foldl .member e := by
  induction names generalizing e with
  | nil =>
    simp only [List.foldlM_nil, pure, Except.pure, Except.ok.injEq]
    constructor
    · rintro rfl
      exact ⟨[], rfl, .nil c _, rfl⟩
    · rintro ⟨ps, hps, -, rfl⟩
      rw [List.map_eq_nil_iff.1 hps.symm]
      rfl
  | cons name names ih =>
    rw [List.foldlM_cons, bind_eq_ok]
    constructor
    · rintro ⟨e₁, h₁, h⟩
      obtain ⟨p, rfl, hp, ht, rfl⟩ := step_eq_ok.1 h₁
      obtain ⟨ps, rfl, hps, rfl⟩ := ih.1 h
      exact ⟨p :: ps, rfl, Catalog.links_cons.2 ⟨hp, ht, hps⟩, rfl⟩
    · rintro ⟨ps, hps, h, rfl⟩
      obtain ⟨p, ps, rfl, rfl, rfl⟩ := List.map_eq_cons_iff.1 hps.symm
      obtain ⟨hp, ht, h⟩ := Catalog.links_cons.1 h
      exact ⟨.member e p, step_eq_ok.2 ⟨p, rfl, hp, ht, rfl⟩, ih.2 ⟨ps, rfl, h, rfl⟩⟩

/-- The members of properties have the type of the last one. -/
lemma type_foldl_member (e : Expr) (ps : List PropertyRef) :
    (ps.foldl .member e).type = (ps.getLast?.map PropertyRef.type).getD e.type := by
  induction ps using List.reverseRecOn with
  | nil => rfl
  | append_singleton ps p ih => simp [type]

/-! ### Paths -/

/-- The segments of a dotted path. -/
def segments (p : String) : List String := (Text.splitOn '.' p.toList).map String.ofList

lemma segments_append (p q : String) : segments (p ++ "." ++ q) = segments p ++ segments q := by
  have htext : (p ++ "." ++ q).toList = p.toList ++ '.' :: q.toList := by simp
  rw [segments, segments, segments, htext, Text.splitOn_eq, List.splitOn_append_cons_self,
    List.map_append, Text.splitOn_eq, Text.splitOn_eq]

lemma segments_ne_nil (p : String) : segments p ≠ [] := by
  rw [segments, Text.splitOn_eq, ne_eq, List.map_eq_nil_iff]
  exact List.splitOn_ne_nil _ _

/-- A path succeeds if no segment is empty and every step along the segments does. -/
lemma path_eq_ok {p : String} : path c e p = .ok e' ↔
    "" ∉ segments p ∧ (segments p).foldlM (step c) e = .ok e' := by
  have hempty : (Text.splitOn '.' p.toList).any List.isEmpty = true ↔ "" ∈ segments p := by
    simp [segments, List.any_eq_true]
  rw [path, ← segments]
  by_cases h : "" ∈ segments p
  · simp [hempty.2 h, h]
  · simp [mt hempty.1 h, h]

/-- A path succeeds exactly if no segment is empty and the segments are the names of properties
that follow each other. -/
lemma path_eq_ok_iff_links {p : String} : path c e p = .ok e' ↔
    "" ∉ segments p ∧ ∃ ps, segments p = ps.map PropertyRef.name ∧ c.Links e.type ps ∧
      e' = ps.foldl .member e ∧ ∃ last ∈ ps.getLast?, e'.type = last.type := by
  rw [path_eq_ok, foldlM_step_eq_ok]
  refine and_congr_right fun _ => exists_congr fun ps => and_congr_right fun hps => ?_
  refine and_congr_right fun _ => (and_iff_left_of_imp ?_).symm
  rintro rfl
  have hne : ps ≠ [] := fun h => segments_ne_nil p (by rw [hps, h, List.map_nil])
  refine ⟨ps.getLast hne, List.getLast?_eq_some_getLast hne, ?_⟩
  rw [type_foldl_member, List.getLast?_eq_some_getLast hne]
  rfl

/-- **Dotted paths compose.** Two paths joined by a dot succeed exactly if the first one does and
the second one does from where the first one leads, and then they lead to the same expression. A
path succeeds exactly if no segment is empty and the segments name properties of which each is one
of the entity that is the type of the one before; the type of the result is that of the last one. -/
theorem path_append (c : Catalog) (e e' : Expr) (p q : String) :
    (path c e (p ++ "." ++ q) = .ok e' ↔ ∃ e₁, path c e p = .ok e₁ ∧ path c e₁ q = .ok e') ∧
      (path c e p = .ok e' ↔ "" ∉ segments p ∧
        ∃ ps, segments p = ps.map PropertyRef.name ∧ c.Links e.type ps ∧
          e' = ps.foldl .member e ∧ ∃ last ∈ ps.getLast?, e'.type = last.type) := by
  refine ⟨?_, path_eq_ok_iff_links⟩
  simp only [path_eq_ok, segments_append, List.mem_append, not_or, List.foldlM_append, bind_eq_ok]
  constructor
  · rintro ⟨⟨hp, hq⟩, e₁, h₁, h⟩
    exact ⟨e₁, ⟨hp, h₁⟩, hq, h⟩
  · rintro ⟨e₁, ⟨hp, h₁⟩, hq, h⟩
    exact ⟨⟨hp, hq⟩, e₁, h₁, h⟩

end Expr
end EntityQuery
