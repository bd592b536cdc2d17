import EntityQuery.Proofs.Fragments.Paths
import EntityQuery.Proofs.Nesting.Graphs

/-!
Fragments, placed and captured.

* `Stands`: a node is the value of a fragment, whose paths lead from an anchor to the sources that the
  value reads. It stays so while the graph grows.
* A fragment of navigations is placed at such a node, and such a node is captured as the fragment:
  what is captured of what was placed is the fragment, but for the types that properties carry.
-/

namespace EntityQuery

open Sql

namespace Fragment

/-! ### Paths of fragments -/

mutual
/-- The paths along which a fragment finds its sources. -/
def paths : Fragment → List (List PropertyRef)
  | .column path _ | .row path => [path]
  | .const _ | .unary _ none => []
  | .unary _ (some e) => e.paths
  | .binary _ l r => l.paths ++ r.paths
  | .isIn e vs => e.paths ++ pathsAll vs
  | .cond t y n => t.paths ++ (y.paths ++ n.paths)

def pathsAll : List Fragment → List (List PropertyRef)
  | [] => []
  | f :: fs => f.paths ++ pathsAll fs
end

mutual
/-- A fragment with properties by owner and name. -/
def untyped : Fragment → Fragment
  | .column path name => .column (path.map PropertyRef.untyped) name
  | .row path => .row (path.map PropertyRef.untyped)
  | .const v => .const v
  | .unary op none => .unary op none
  | .unary op (some e) => .unary op (some e.untyped)
  | .binary op l r => .binary op l.untyped r.untyped
  | .isIn e vs => .isIn e.untyped (untypedAll vs)
  | .cond t y n => .cond t.untyped y.untyped n.untyped

def untypedAll : List Fragment → List Fragment
  | [] => []
  | f :: fs => f.untyped :: untypedAll fs
end

/-! ### Nodes of fragments -/

mutual
/-- A node is the value of a fragment: its parts are older nodes, and its sources are where the paths
of the fragment lead. -/
def Stands (g : Graph) (anchor : AliasId) : Fragment → NodeId → Prop
  | .column path name, n => ∃ a, g.Leads anchor path a ∧ g.Has n (.column a name)
  | .row path, n => ∃ a, g.Leads anchor path a ∧ g.Has n (.row a)
  | .const v, n => g.Has n (.const v)
  | .unary op none, n => g.Has n (.unary op none)
  | .unary op (some e), n => ∃ m, m.index < n.index ∧ g.Has n (.unary op (some m)) ∧ Stands g anchor e m
  | .binary op l r, n => ∃ i j, (i.index < n.index ∧ j.index < n.index) ∧ g.Has n (.binary op i j) ∧
      Stands g anchor l i ∧ Stands g anchor r j
  | .isIn e vs, n => ∃ m ms, (m.index < n.index ∧ ∀ i ∈ ms, i.index < n.index) ∧
      g.Has n (.isIn m ms) ∧ Stands g anchor e m ∧ AllStand g anchor vs ms
  | .cond t y z, n => ∃ i j k, (i.index < n.index ∧ j.index < n.index ∧ k.index < n.index) ∧
      g.Has n (.cond i j k) ∧ Stands g anchor t i ∧ Stands g anchor y j ∧ Stands g anchor z k

def AllStand (g : Graph) (anchor : AliasId) : List Fragment → List NodeId → Prop
  | [], [] => True
  | f :: fs, n :: ns => Stands g anchor f n ∧ AllStand g anchor fs ns
  | _, _ => False
end

section Stands

variable {g h : Graph} {anchor : AliasId} {C : List RequestId} {A : List AliasId}

mutual
/-- The value of a fragment stays its value. -/
theorem Stands.later (hgh : g.Kept C A h) :
    ∀ {f : Fragment} {n : NodeId}, f.Stands g anchor n → f.Stands h anchor n
  | .column _ _, _, ⟨a, ha, hn⟩ => ⟨a, ha.later hgh, hn.later hgh.extension⟩
  | .row _, _, ⟨a, ha, hn⟩ => ⟨a, ha.later hgh, hn.later hgh.extension⟩
  | .const _, _, hn => Graph.Has.later hn hgh.extension
  | .unary _ none, _, hn => Graph.Has.later hn hgh.extension
  | .unary _ (some _), _, ⟨m, hlt, hn, he⟩ => ⟨m, hlt, hn.later hgh.extension, he.later hgh⟩
  | .binary _ _ _, _, ⟨i, j, hlt, hn, hl, hr⟩ =>
    ⟨i, j, hlt, hn.later hgh.extension, hl.later hgh, hr.later hgh⟩
  | .isIn _ _, _, ⟨m, ms, hlt, hn, he, hvs⟩ =>
    ⟨m, ms, hlt, hn.later hgh.extension, he.later hgh, hvs.later hgh⟩
  | .cond _ _ _, _, ⟨i, j, k, hlt, hn, ht, hy, hz⟩ =>
    ⟨i, j, k, hlt, hn.later hgh.extension, ht.later hgh, hy.later hgh, hz.later hgh⟩

theorem AllStand.later (hgh : g.Kept C A h) :
    ∀ {fs : List Fragment} {ns : List NodeId}, AllStand g anchor fs ns → AllStand h anchor fs ns
  | [], [], _ => trivial
  | _ :: _, _ :: _, hns => ⟨hns.1.later hgh, hns.2.later hgh⟩
end

/-- The value of a fragment is a node of the graph. -/
lemma Stands.lt {f : Fragment} {n : NodeId} (hn : f.Stands g anchor n) :
    n.index < g.entries.size := by
  cases f with
  | column path name =>
    obtain ⟨a, -, hn⟩ := hn
    exact hn.1
  | row path =>
    obtain ⟨a, -, hn⟩ := hn
    exact hn.1
  | const v => exact hn.1
  | unary op operand =>
    cases operand with
    | none => exact hn.1
    | some e =>
      obtain ⟨m, -, hn, -⟩ := hn
      exact hn.1
  | binary op l r =>
    obtain ⟨i, j, -, hn, -⟩ := hn
    exact hn.1
  | isIn e vs =>
    obtain ⟨m, ms, -, hn, -⟩ := hn
    exact hn.1
  | cond t y z =>
    obtain ⟨i, j, k, -, hn, -⟩ := hn
    exact hn.1

lemma AllStand.lt : ∀ {fs : List Fragment} {ns : List NodeId}, AllStand g anchor fs ns →
    ∀ n ∈ ns, n.index < g.entries.size
  | [], [], _, _, hn => absurd hn List.not_mem_nil
  | _ :: _, _ :: _, hns, n, hn => by
    rcases List.mem_cons.1 hn with rfl | hn
    · exact hns.1.lt
    · exact hns.2.lt n hn

end Stands

/-! ### Placing -/

section Place

variable {c : Catalog} {r : RequestId} {anchor : AliasId} {walk : List PropertyRef → Resolve AliasId}

lemma runs_addNode (g : Graph) (x : Node) :
    Runs (liftM (Build.add x) : Resolve NodeId) g ⟨g.entries.size⟩ (g.add x).2 := runs_lift.2 rfl

/-- A node that is added changes nothing around it. -/
lemma places_add {g : Graph} (hg : g.Places r anchor) (x : Node) :
    g.Kept [r] [] (g.add x).2 ∧ (g.add x).2.Places r anchor := by
  refine ⟨.add _ _ g x, by simpa using hg.request, by simpa using hg.anchor, fun a o p via h => ?_⟩
  exact hg.older a o p via (by simpa using h)

mutual
/-- **A fragment of navigations can be placed**, and is the value of the node it is placed at. -/
theorem runs_place (hwalk : WalksAlong c r anchor walk) : ∀ (f : Fragment) {g : Graph}, g.Places r anchor →
    (∀ path ∈ f.paths, ∀ p ∈ path, c.isNavigation p = true) → ∃ n h, Runs (f.place walk) g n h ∧
      g.Kept [r] [] h ∧ h.Places r anchor ∧ f.Stands h anchor n
  | .column path name, g, hg, hpaths => by
    obtain ⟨a, h, hrun, hkept, hh, ha⟩ := hwalk g path hg (hpaths path (by simp [paths]))
    obtain ⟨hkept', hh'⟩ := places_add hh (.column a name)
    exact ⟨_, _, hrun.bind (runs_addNode h _), hkept.trans hkept', hh', a, ha.later hkept', h.has_add _⟩
  | .row path, g, hg, hpaths => by
    obtain ⟨a, h, hrun, hkept, hh, ha⟩ := hwalk g path hg (hpaths path (by simp [paths]))
    obtain ⟨hkept', hh'⟩ := places_add hh (.row a)
    exact ⟨_, _, hrun.bind (runs_addNode h _), hkept.trans hkept', hh', a, ha.later hkept', h.has_add _⟩
  | .const v, g, hg, _ => by
    obtain ⟨hkept, hh⟩ := places_add hg (.const v)
    exact ⟨_, _, runs_addNode g _, hkept, hh, g.has_add _⟩
  | .unary op none, g, hg, _ => by
    obtain ⟨hkept, hh⟩ := places_add hg (.unary op none)
    exact ⟨_, _, runs_addNode g _, hkept, hh, g.has_add _⟩
  | .unary op (some e), g, hg, hpaths => by
    obtain ⟨m, h, hrun, hkept, hh, he⟩ := runs_place hwalk e hg (by simpa [paths] using hpaths)
    obtain ⟨hkept', hh'⟩ := places_add hh (.unary op (some m))
    exact ⟨_, _, hrun.bind (runs_addNode h _), hkept.trans hkept', hh', m, he.lt, h.has_add _,
      he.later hkept'⟩
  | .binary op l r', g, hg, hpaths => by
    simp only [paths, List.mem_append] at hpaths
    obtain ⟨i, h₁, hrun₁, hkept₁, hh₁, hl⟩ := runs_place hwalk l hg fun path hp => hpaths path (.inl hp)
    obtain ⟨j, h₂, hrun₂, hkept₂, hh₂, hr⟩ := runs_place hwalk r' hh₁ fun path hp => hpaths path (.inr hp)
    obtain ⟨hkept, hh⟩ := places_add hh₂ (.binary op i j)
    exact ⟨_, _, hrun₁.bind (hrun₂.bind (runs_addNode h₂ _)), (hkept₁.trans hkept₂).trans hkept, hh, i, j,
      ⟨hl.lt.trans_le hkept₂.entries, hr.lt⟩, h₂.has_add _, hl.later (hkept₂.trans hkept),
      hr.later hkept⟩
  | .isIn e vs, g, hg, hpaths => by
    simp only [paths, List.mem_append] at hpaths
    obtain ⟨i, h₁, hrun₁, hkept₁, hh₁, he⟩ := runs_place hwalk e hg fun path hp => hpaths path (.inl hp)
    obtain ⟨js, h₂, hrun₂, hkept₂, hh₂, hvs⟩ :=
      runs_placeAll hwalk vs hh₁ fun path hp => hpaths path (.inr hp)
    obtain ⟨hkept, hh⟩ := places_add hh₂ (.isIn i js)
    exact ⟨_, _, hrun₁.bind (hrun₂.bind (runs_addNode h₂ _)), (hkept₁.trans hkept₂).trans hkept, hh, i, js,
      ⟨he.lt.trans_le hkept₂.entries, hvs.lt⟩, h₂.has_add _, he.later (hkept₂.trans hkept),
      hvs.later hkept⟩
  | .cond t y z, g, hg, hpaths => by
    simp only [paths, List.mem_append] at hpaths
    obtain ⟨i, h₁, hrun₁, hkept₁, hh₁, ht⟩ := runs_place hwalk t hg fun path hp => hpaths path (.inl hp)
    obtain ⟨j, h₂, hrun₂, hkept₂, hh₂, hy⟩ :=
      runs_place hwalk y hh₁ fun path hp => hpaths path (.inr (.inl hp))
    obtain ⟨k, h₃, hrun₃, hkept₃, hh₃, hz⟩ :=
      runs_place hwalk z hh₂ fun path hp => hpaths path (.inr (.inr hp))
    obtain ⟨hkept, hh⟩ := places_add hh₃ (.cond i j k)
    refine ⟨_, _, hrun₁.bind (hrun₂.bind (hrun₃.bind (runs_addNode h₃ _))),
      ((hkept₁.trans hkept₂).trans hkept₃).trans hkept, hh, i, j, k, ⟨?_, ?_, hz.lt⟩, h₃.has_add _,
      ht.later ((hkept₂.trans hkept₃).trans hkept), hy.later (hkept₃.trans hkept), hz.later hkept⟩
    · exact ht.lt.trans_le (hkept₂.trans hkept₃).entries
    · exact hy.lt.trans_le hkept₃.entries

theorem runs_placeAll (hwalk : WalksAlong c r anchor walk) : ∀ (fs : List Fragment) {g : Graph},
    g.Places r anchor → (∀ path ∈ pathsAll fs, ∀ p ∈ path, c.isNavigation p = true) →
      ∃ ns h, Runs (placeAll walk fs) g ns h ∧ g.Kept [r] [] h ∧ h.Places r anchor ∧
        AllStand h anchor fs ns
  | [], g, hg, _ => ⟨[], g, runs_pure.2 ⟨rfl, rfl⟩, .refl _ _ g, hg, trivial⟩
  | f :: fs, g, hg, hpaths => by
    simp only [pathsAll, List.mem_append] at hpaths
    obtain ⟨n, h₁, hrun₁, hkept₁, hh₁, hf⟩ := runs_place hwalk f hg fun path hp => hpaths path (.inl hp)
    obtain ⟨ns, h₂, hrun₂, hkept₂, hh₂, hfs⟩ :=
      runs_placeAll hwalk fs hh₁ fun path hp => hpaths path (.inr hp)
    exact ⟨n :: ns, h₂, hrun₁.bind (hrun₂.bind (runs_pure.2 ⟨rfl, rfl⟩)), hkept₁.trans hkept₂, hh₂,
      hf.later hkept₂, hfs⟩
end

end Place

/-! ### Capturing -/

section Rule

variable {g : Graph} {anchor : AliasId} {part : NodeId → Option Fragment} {query : RequestId → Unit}

/-- A node is captured if its sources and its parts are. -/
lemma capturing_column {a : AliasId} {path : List PropertyRef} (ha : g.pathFrom? anchor a = some path)
    (name : String) : (capturing g anchor).node part query (.column a name) =
      some (.column path name) := by simp [capturing, ha]

lemma capturing_row {a : AliasId} {path : List PropertyRef} (ha : g.pathFrom? anchor a = some path) :
    (capturing g anchor).node part query (.row a) = some (.row path) := by simp [capturing, ha]

lemma capturing_unary {e : NodeId} {f : Fragment} (he : part e = some f) (op : UnaryOp) :
    (capturing g anchor).node part query (.unary op (some e)) = some (.unary op (some f)) := by
  simp [capturing, he]

lemma capturing_binary {l r : NodeId} {left right : Fragment} (hl : part l = some left)
    (hr : part r = some right) (op : BinaryOp) :
    (capturing g anchor).node part query (.binary op l r) = some (.binary op left right) := by
  simp [capturing, hl, hr]

lemma capturing_isIn {e : NodeId} {vs : List NodeId} {f : Fragment} {fs : List Fragment}
    (he : part e = some f) (hvs : vs.mapM part = some fs) :
    (capturing g anchor).node part query (.isIn e vs) = some (.isIn f fs) := by
  simp [capturing, he, hvs]

lemma capturing_cond {t y n : NodeId} {test yes no : Fragment} (ht : part t = some test)
    (hy : part y = some yes) (hn : part n = some no) :
    (capturing g anchor).node part query (.cond t y n) = some (.cond test yes no) := by
  simp [capturing, ht, hy, hn]

end Rule

section Capture

variable {g : Graph} {anchor : AliasId}

mutual
/-- The value of a fragment is captured as the fragment. -/
theorem Stands.captured (hanchor : anchor.index < g.aliases.size) : ∀ {f : Fragment} {n : NodeId}
    (fuel : Nat), f.Stands g anchor n → n.index < fuel →
      ∃ read, g.readNodeWithin (capturing g anchor) fuel [] n = some read ∧ read.untyped = f.untyped
  | .column path name, n, fuel + 1, ⟨a, ha, hn⟩, _ => by
    obtain ⟨read, hread, hpath⟩ := ha.pathFrom? hanchor
    refine ⟨.column read name, ?_, by rw [untyped, hpath, untyped]⟩
    rw [Graph.readNodeWithin, hn.2, capturing_column hread]
  | .row path, n, fuel + 1, ⟨a, ha, hn⟩, _ => by
    obtain ⟨read, hread, hpath⟩ := ha.pathFrom? hanchor
    refine ⟨.row read, ?_, by rw [untyped, hpath, untyped]⟩
    rw [Graph.readNodeWithin, hn.2, capturing_row hread]
  | .const v, n, fuel + 1, hn, _ => by
    refine ⟨.const v, ?_, rfl⟩
    rw [Graph.readNodeWithin, hn.2]
    rfl
  | .unary op none, n, fuel + 1, hn, _ => by
    refine ⟨.unary op none, ?_, rfl⟩
    rw [Graph.readNodeWithin, hn.2]
    rfl
  | .unary op (some e), n, fuel + 1, ⟨m, hlt, hn, he⟩, hfuel => by
    obtain ⟨read, hread, hsame⟩ := Stands.captured hanchor fuel he (by omega)
    refine ⟨.unary op (some read), ?_, by rw [untyped, hsame, untyped]⟩
    rw [Graph.readNodeWithin, hn.2, capturing_unary hread]
  | .binary op l r, n, fuel + 1, ⟨i, j, ⟨hi, hj⟩, hn, hl, hr⟩, hfuel => by
    obtain ⟨left, hleft, hsame⟩ := Stands.captured hanchor fuel hl (by omega)
    obtain ⟨right, hright, hsame'⟩ := Stands.captured hanchor fuel hr (by omega)
    refine ⟨.binary op left right, ?_, by rw [untyped, hsame, hsame', untyped]⟩
    rw [Graph.readNodeWithin, hn.2, capturing_binary hleft hright]
  | .isIn e vs, n, fuel + 1, ⟨m, ms, ⟨hm, hms⟩, hn, he, hvs⟩, hfuel => by
    obtain ⟨read, hread, hsame⟩ := Stands.captured hanchor fuel he (by omega)
    obtain ⟨reads, hreads, hsame'⟩ := AllStand.captured hanchor fuel hvs
      fun i hi => (hms i hi).trans_le (Nat.lt_succ_iff.1 hfuel)
    refine ⟨.isIn read reads, ?_, by rw [untyped, hsame, hsame', untyped]⟩
    rw [Graph.readNodeWithin, hn.2, capturing_isIn hread hreads]
  | .cond t y z, n, fuel + 1, ⟨i, j, k, ⟨hi, hj, hk⟩, hn, ht, hy, hz⟩, hfuel => by
    obtain ⟨test, htest, hsame⟩ := Stands.captured hanchor fuel ht (by omega)
    obtain ⟨yes, hyes, hsame'⟩ := Stands.captured hanchor fuel hy (by omega)
    obtain ⟨no, hno, hsame''⟩ := Stands.captured hanchor fuel hz (by omega)
    refine ⟨.cond test yes no, ?_, by rw [untyped, hsame, hsame', hsame'', untyped]⟩
    rw [Graph.readNodeWithin, hn.2, capturing_cond htest hyes hno]

theorem AllStand.captured (hanchor : anchor.index < g.aliases.size) : ∀ {fs : List Fragment}
    {ns : List NodeId} (fuel : Nat), AllStand g anchor fs ns → (∀ n ∈ ns, n.index < fuel) →
      ∃ reads, ns.mapM (g.readNodeWithin (capturing g anchor) fuel []) = some reads ∧
        untypedAll reads = untypedAll fs
  | [], [], _, _, _ => ⟨[], rfl, rfl⟩
  | f :: fs, n :: ns, fuel, hns, hlt => by
    obtain ⟨read, hread, hsame⟩ := Stands.captured hanchor fuel hns.1 (hlt n List.mem_cons_self)
    obtain ⟨reads, hreads, hsame'⟩ :=
      AllStand.captured hanchor fuel hns.2 fun m hm => hlt m (List.mem_cons_of_mem _ hm)
    refine ⟨read :: reads, ?_, by rw [untypedAll, hsame, hsame', untypedAll]⟩
    rw [List.mapM_cons, hread, hreads]
    rfl
end

/-- **The value of a fragment is captured as the fragment.** -/
theorem Stands.ofNode? (hanchor : anchor.index < g.aliases.size) {f : Fragment} {n : NodeId}
    (hn : f.Stands g anchor n) :
    ∃ read, Fragment.ofNode? g anchor n = some read ∧ read.untyped = f.untyped := by
  refine Stands.captured hanchor _ hn ?_
  -- the fuel of a reading is more than the number of nodes
  have hheight : g.entries.size ≤ (g.entries.size + 1) * (g.requests.size + 1) :=
    (Nat.le_succ _).trans (Nat.le_mul_of_pos_right _ (Nat.succ_pos _))
  exact hn.lt.trans_le (hheight.trans (Nat.le_succ _))

end Capture

end Fragment

/-! ### The round trip -/

section RoundTrip

variable {m : Mapping} {g : Graph} {r : RequestId} {owner : AliasId}

/-- **Fragments round-trip.** On a validated catalog without computed properties, a fragment whose paths
consist of navigations can be placed at any request and owner of a graph in which navigations start
at older aliases. What is captured of the new node, seen from the owner, is the fragment, with
properties by owner and name. -/
theorem captured_instantiate (hm : m.equivalents = []) (hc : m.catalog.validate = .ok ())
    (hg : g.OlderOwners) (hr : r.index < g.requests.size) (howner : owner.index < g.aliases.size)
    (f : Fragment) (hf : ∀ path ∈ f.paths, ∀ p ∈ path, m.catalog.isNavigation p = true) (widen : Bool) :
    ∃ n h read, Runs (m.instantiate f r owner widen) g n h ∧
      Fragment.ofNode? h owner n = some read ∧ read.untyped = f.untyped := by
  obtain ⟨n, h, hrun, -, hh, hn⟩ :=
    f.runs_place (m.walksAlong_resolve hm hc r owner widen) ⟨hr, howner, hg⟩ hf
  obtain ⟨read, hread, hsame⟩ := hn.ofNode? hh.anchor
  exact ⟨n, h, read, hrun, hread, hsame⟩

end RoundTrip

namespace Discography

/-- Tracks on albums, with genres; albums of an artist. -/
def catalog : Catalog :=
  ⟨[⟨"Track", "TRACK", some "id", [⟨"id", "ID", .scalar .int false none⟩,
      ⟨"album", "IDFK_ALBUM", .reference "Album"⟩,
      ⟨"genres", "", .manyToMany "Genre" "TRACK_GENRES" "IDFK_TRACK" "IDFK_GENRE"⟩]⟩,
    ⟨"Album", "ALBUM", some "id", [⟨"id", "ID", .scalar .int false none⟩,
      ⟨"artist", "IDFK_ARTIST", .reference "Artist"⟩,
      ⟨"tracks", "IDFK_ALBUM", .collection "Track"⟩]⟩,
    ⟨"Artist", "ARTIST", some "id", [⟨"id", "ID", .scalar .int false none⟩]⟩,
    ⟨"Genre", "GENRE", some "id", [⟨"id", "ID", .scalar .int false none⟩]⟩]⟩

def mapping : Mapping := { catalog }

def album : PropertyRef := ⟨"Track", "album", .entity "Album"⟩

def genres : PropertyRef := ⟨"Track", "genres", .collection (.entity "Genre")⟩

def artist : PropertyRef := ⟨"Album", "artist", .entity "Artist"⟩

def tracks : PropertyRef := ⟨"Album", "tracks", .collection (.entity "Track")⟩

/-- A query of tracks that has joined their albums. -/
def graph : Graph :=
  { entries := #[⟨.column ⟨0⟩ "IDFK_ALBUM", none⟩, ⟨.column ⟨1⟩ "ID", none⟩,
      ⟨.binary .equal ⟨0⟩ ⟨1⟩, none⟩]
    aliases := #[.ofTable "TRACK" "Track" (some "ID"),
      { Alias.ofTable "ALBUM" "Album" (some "ID") with route := .navigation ⟨0⟩ album none }]
    requests := #[{ base := some ⟨0⟩, joins := [⟨⟨1⟩, .inner, ⟨2⟩⟩] }] }

lemma olderOwners_graph : graph.OlderOwners := by
  rintro ⟨_ | _ | n⟩ owner p via hroute
  · cases hroute
  · cases hroute
    exact Nat.zero_lt_one
  · cases hroute

/-- The artist, where the album is among the genres of its tracks. -/
def fragment : Fragment :=
  .cond (.isIn (.column [album, tracks, genres] "NAME") [.column [album] "TITLE", .const (.int 7)])
    (.row [album, artist]) (.unary .not (some (.column [album, artist] "NAME")))

end Discography

open Discography in
theorem captured_instantiate_album :
    mapping.equivalents = [] ∧ mapping.catalog.validate = .ok () ∧ graph.OlderOwners ∧
      (∀ path ∈ fragment.paths, ∀ p ∈ path, mapping.catalog.isNavigation p = true) ∧
      ∃ n h read, Runs (mapping.instantiate fragment ⟨0⟩ ⟨0⟩ true) graph n h ∧
        Fragment.ofNode? h ⟨0⟩ n = some read ∧ read.untyped = fragment.untyped := by
  have hpaths : ∀ path ∈ fragment.paths, ∀ p ∈ path, mapping.catalog.isNavigation p = true := by
    decide
  exact ⟨rfl, rfl, olderOwners_graph, hpaths, captured_instantiate (m := mapping) rfl rfl
    olderOwners_graph (by decide) (by decide) fragment hpaths true⟩

end EntityQuery
