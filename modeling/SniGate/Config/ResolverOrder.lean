import SniGate.Config.Types
import SniGate.Graph.Order
import Mathlib.Data.List.Lex
import Mathlib.Data.List.Sort

/-!
# The build order of resolvers

A declared resolver may need another one to find its own address or its ECH configuration. They are
built in an order in which each stands after those it refers to, found by a depth-first search over
the references; a cycle refuses the document, and the refusal shows the path.

The search is that of `Graph.buildOrder`, on the graph whose edges are the references that name a
declared resolver.
-/

namespace SniGate

open Relation

/-- `ResolverDef::references`: the bootstrap, and the resolver of the ECH configuration. -/
def ResolverDef.references (d : ResolverDef) : List Str :=
  d.bootstrap.toList ++ (d.ech.bind EchConfig.echResolver).toList

/-- Whether a specification is a `[resolvers.<name>]` reference rather than an inline one. -/
def isResolverRef (s : Str) : Bool := (trim s).head? = some '@'

namespace Config

variable (cfg : Config)

/-- `Config::resolver_def`. -/
def resolverDef (name : Str) : Except ConfigError ResolverDef :=
  match cfg.resolvers.lookup name with
  | some d => .ok d
  | none =>
    refuse ["unknown resolver ".toList, debugStr name, " (no matching [resolvers.".toList, name,
      "])".toList]

/-- The declared resolver that a reference of `name` leads to. -/
def resolverEdge (name edge : Str) : Except ConfigError Str :=
  match stripStart ['@'] edge with
  | none =>
    refuse ["[resolvers.".toList, name, "]: invalid resolver reference ".toList, debugStr edge]
  | some bareName =>
    if bareName ∈ cfg.resolvers then .ok bareName
    else refuse ["[resolvers.".toList, name, "]: unknown resolver ".toList, debugStr edge]

/-- The references of one resolver, in order and without repetition. -/
def resolverEdges (name : Str) : Except ConfigError (List Str) := do
  let d ← cfg.resolverDef name
  (((d.references.filter isResolverRef).insertionSort (· ≤ ·)).dedup).mapM (cfg.resolverEdge name)

/-- The refusal of a cycle. -/
def resolverCycle (path : List Str) : ConfigError :=
  .invalid ("[resolvers]: dependency cycle ".toList ++ join " -> ".toList path ++
    " — every resolver in a cycle needs another one in it to find its own address. ".toList ++
    "Break the chain by pointing one \x60bootstrap\x60 at a literal IP, ".toList ++
    "or by omitting it to use OS resolution".toList)

theorem mem_resolvers_of_resolverEdges {name : Str} {es : List Str}
    (h : cfg.resolverEdges name = .ok es) : ∃ d, cfg.resolvers.lookup name = some d := by
  obtain ⟨d, hd, -⟩ := bind_eq_ok.mp h
  rw [resolverDef] at hd
  cases hlookup : cfg.resolvers.lookup name with
  | some d' => exact ⟨d', rfl⟩
  | none =>
    rw [hlookup] at hd
    exact absurd hd (by simp [refuse])

/-- The graph of the references. -/
def resolverGraph : Graph Str ConfigError where
  nodes := cfg.resolvers.keys
  edges := cfg.resolverEdges
  cycle := resolverCycle
  mem_nodes h := by
    obtain ⟨d, hd⟩ := cfg.mem_resolvers_of_resolverEdges h
    exact AList.mem_keys.mp (AList.lookup_isSome.mp (by rw [hd]; rfl))

/-- `Config::resolver_build_order`. -/
def resolverBuildOrder : Except ConfigError (List Str) :=
  cfg.resolverGraph.buildOrder (cfg.resolvers.keys.insertionSort (· ≤ ·))

/-! ## References -/

/-- The definition of `a` refers to `b`. -/
def RefersTo (a b : Str) : Prop := ∃ d, cfg.resolvers.lookup a = some d ∧ '@' :: b ∈ d.references

/-- Every reference of every definition names a declared resolver. -/
def ReferencesResolve : Prop :=
  ∀ a d, cfg.resolvers.lookup a = some d → ∀ r ∈ d.references, isResolverRef r →
    ∃ b ∈ cfg.resolvers, r = '@' :: b

/-- A walk along references that ends where it has been before. -/
def ReferenceCycle (path : List Str) : Prop :=
  ∃ front b, path = front ++ [b] ∧ path.IsChain cfg.RefersTo ∧ b ∈ front

section References

variable {cfg} {name edge b : Str} {es order path : List Str}

theorem isResolverRef_cons : isResolverRef ('@' :: b) := by
  have htrim : trim ('@' :: b) = (('@' :: b).rdropWhile isWhitespace) := by
    rw [trim, List.dropWhile_cons_of_neg (by decide)]
  have hfront : ['@'] <+: ('@' :: b).rdropWhile isWhitespace := by
    rw [List.rdropWhile, List.reverse_cons, List.dropWhile_append]
    split_ifs with hall
    · exact ⟨[], by decide⟩
    · rw [List.reverse_append]
      exact List.prefix_append _ _
  obtain ⟨t, ht⟩ := hfront
  simp [isResolverRef, htrim, ← ht]

theorem resolverDef_eq_ok {d : ResolverDef} :
    cfg.resolverDef name = .ok d ↔ cfg.resolvers.lookup name = some d := by
  rw [resolverDef]
  cases cfg.resolvers.lookup name with
  | some d' => simp
  | none => simp [refuse]

theorem resolverEdge_eq_ok :
    cfg.resolverEdge name edge = .ok b ↔ edge = '@' :: b ∧ b ∈ cfg.resolvers := by
  rw [resolverEdge]
  cases hstrip : stripStart ['@'] edge with
  | none =>
    refine ⟨fun h ↦ absurd h (by simp [refuse]), fun ⟨hedge, _⟩ ↦ ?_⟩
    rw [stripStart_eq_some.mpr (hedge.symm : ['@'] ++ b = edge)] at hstrip
    exact absurd hstrip (by simp)
  | some bare =>
    have hedge : ['@'] ++ bare = edge := stripStart_eq_some.mp hstrip
    by_cases hbare : bare ∈ cfg.resolvers
    · simp only [hbare, if_true]
      refine ⟨fun h ↦ ?_, fun ⟨h, _⟩ ↦ ?_⟩
      · obtain rfl := Except.ok.inj h
        exact ⟨hedge.symm, hbare⟩
      · rw [h] at hedge
        exact congrArg Except.ok (List.cons.inj hedge).2
    · simp only [hbare, if_false]
      refine ⟨fun h ↦ absurd h (by simp [refuse]), fun ⟨h, hb⟩ ↦ ?_⟩
      rw [h] at hedge
      exact absurd hb ((List.cons.inj hedge).2 ▸ hbare)

theorem mapM_eq_ok {ε α β : Type} {xs : List α} {ys : List β} {f : α → Except ε β} :
    xs.mapM f = .ok ys ↔ List.Forall₂ (fun x y ↦ f x = .ok y) xs ys := by
  induction xs generalizing ys with
  | nil =>
    constructor
    · intro h
      obtain rfl := Except.ok.inj h
      exact .nil
    · intro h
      cases h
      rfl
  | cons x xs ih =>
    rw [List.mapM_cons, bind_eq_ok]
    constructor
    · rintro ⟨y, hy, h⟩
      obtain ⟨ys', hys', h⟩ := bind_eq_ok.mp h
      obtain rfl := Except.ok.inj h
      exact .cons hy (ih.mp hys')
    · intro h
      cases h with
      | cons hy hys => exact ⟨_, hy, bind_eq_ok.mpr ⟨_, ih.mpr hys, rfl⟩⟩

theorem exists_of_mapM {ε α β : Type} {xs : List α} {ys : List β} {f : α → Except ε β}
    (h : xs.mapM f = .ok ys) {y : β} (hy : y ∈ ys) : ∃ x ∈ xs, f x = .ok y := by
  have hall := mapM_eq_ok.mp h
  clear h
  induction hall with
  | nil => exact absurd hy (by simp)
  | cons hx _ ih =>
    rcases List.mem_cons.mp hy with rfl | hy
    · exact ⟨_, List.mem_cons_self, hx⟩
    · obtain ⟨x, hmem, hfx⟩ := ih hy
      exact ⟨x, List.mem_cons_of_mem _ hmem, hfx⟩

/-- The edges of a resolver whose references all name declared ones are these references. -/
theorem mem_resolverEdges (h : cfg.resolverEdges name = .ok es) : b ∈ es ↔ cfg.RefersTo name b := by
  obtain ⟨d, hd, hmap⟩ := bind_eq_ok.mp h
  have hlookup : cfg.resolvers.lookup name = some d := resolverDef_eq_ok.mp hd
  have hall := mapM_eq_ok.mp hmap
  have hmem : ∀ r, r ∈ ((d.references.filter isResolverRef).insertionSort (· ≤ ·)).dedup ↔
      r ∈ d.references ∧ isResolverRef r := fun r ↦ by
    rw [List.mem_dedup, List.mem_insertionSort, List.mem_filter]
  constructor
  · intro hb
    obtain ⟨i, hi, rfl⟩ := List.getElem_of_mem hb
    have hedge := hall.get (hall.length_eq ▸ hi) hi
    rw [resolverEdge_eq_ok] at hedge
    refine ⟨d, hlookup, ?_⟩
    have hin := ((hmem _).mp (List.get_mem _ ⟨i, hall.length_eq ▸ hi⟩)).1
    rw [hedge.1] at hin
    exact hin
  · rintro ⟨d', hd', href⟩
    obtain rfl := Option.some.inj (hlookup.symm.trans hd')
    obtain ⟨i, hi, heq⟩ := List.getElem_of_mem ((hmem _).mpr ⟨href, isResolverRef_cons⟩)
    have hedge := hall.get hi (hall.length_eq ▸ hi)
    rw [List.get_eq_getElem, heq, resolverEdge_eq_ok] at hedge
    exact (List.cons.inj hedge.1).2 ▸ List.get_mem _ _

theorem resolverEdges_eq_ok (h : cfg.ReferencesResolve) (hname : name ∈ cfg.resolvers) :
    ∃ es, cfg.resolverEdges name = .ok es := by
  obtain ⟨d, hd⟩ := Option.isSome_iff_exists.mp (AList.lookup_isSome.mpr hname)
  have hall : ∀ refs : List Str, (∀ r ∈ refs, r ∈ d.references ∧ isResolverRef r) →
      ∃ es, refs.mapM (cfg.resolverEdge name) = .ok es := by
    intro refs
    induction refs with
    | nil => exact fun _ ↦ ⟨[], rfl⟩
    | cons r refs ih =>
      intro hrefs
      rw [List.forall_mem_cons] at hrefs
      obtain ⟨b, hb, hr⟩ := h name d hd r hrefs.1.1 hrefs.1.2
      obtain ⟨es, hes⟩ := ih hrefs.2
      refine ⟨b :: es, ?_⟩
      rw [List.mapM_cons]
      exact bind_eq_ok.mpr ⟨b, resolverEdge_eq_ok.mpr ⟨hr, hb⟩, bind_eq_ok.mpr ⟨es, hes, rfl⟩⟩
  obtain ⟨es, hes⟩ := hall ((d.references.filter isResolverRef).insertionSort (· ≤ ·)).dedup
    fun r hr ↦ by rwa [List.mem_dedup, List.mem_insertionSort, List.mem_filter] at hr
  exact ⟨es, bind_eq_ok.mpr ⟨d, resolverDef_eq_ok.mpr hd, hes⟩⟩

theorem mem_resolvers_of_mem_edges (h : cfg.resolverEdges name = .ok es) (hb : b ∈ es) :
    b ∈ cfg.resolvers := by
  obtain ⟨d, -, hmap⟩ := bind_eq_ok.mp h
  have hall := mapM_eq_ok.mp hmap
  obtain ⟨i, hi, rfl⟩ := List.getElem_of_mem hb
  exact (resolverEdge_eq_ok.mp (hall.get (hall.length_eq ▸ hi) hi)).2

theorem resolved_resolverGraph : cfg.resolverGraph.Resolved ↔ cfg.ReferencesResolve := by
  constructor
  · intro h name d hd r hr href
    obtain ⟨es, hes, -⟩ := h name (AList.mem_keys.mp (AList.lookup_isSome.mp (by rw [hd]; rfl)))
    obtain ⟨d', hd', hmap⟩ := bind_eq_ok.mp hes
    obtain rfl := Option.some.inj (hd.symm.trans (resolverDef_eq_ok.mp hd'))
    have hall := mapM_eq_ok.mp hmap
    have hin : r ∈ ((d.references.filter isResolverRef).insertionSort (· ≤ ·)).dedup := by
      rw [List.mem_dedup, List.mem_insertionSort, List.mem_filter]
      exact ⟨hr, href⟩
    obtain ⟨i, hi, rfl⟩ := List.getElem_of_mem hin
    obtain ⟨hedge, hb⟩ := resolverEdge_eq_ok.mp (hall.get hi (hall.length_eq ▸ hi))
    exact ⟨_, hb, hedge⟩
  · intro h name hname
    obtain ⟨es, hes⟩ := resolverEdges_eq_ok h (AList.mem_keys.mpr hname)
    exact ⟨es, hes, fun b hb ↦ AList.mem_keys.mp (mem_resolvers_of_mem_edges hes hb)⟩

theorem edge_resolverGraph_of_resolved (h : cfg.resolverGraph.Resolved) :
    cfg.resolverGraph.Edge = cfg.RefersTo := by
  funext a b
  refine propext ⟨fun ⟨es, hes, hb⟩ ↦ (mem_resolverEdges hes).mp hb, fun href ↦ ?_⟩
  obtain ⟨d, hd, -⟩ := id href
  obtain ⟨es, hes, -⟩ := h a (AList.mem_keys.mp (AList.lookup_isSome.mp (by rw [hd]; rfl)))
  exact ⟨es, hes, (mem_resolverEdges hes).mpr href⟩

theorem mem_roots : name ∈ cfg.resolvers.keys.insertionSort (· ≤ ·) ↔
    name ∈ cfg.resolverGraph.nodes :=
  List.mem_insertionSort _

/-- A table has an order when its references resolve and none leads back to where it started. -/
theorem exists_order_iff : (∃ order, cfg.resolverBuildOrder = .ok order) ↔
    cfg.resolverGraph.Resolved ∧ cfg.resolverGraph.Acyclic :=
  Graph.buildOrder_ok_iff (fun _ ↦ mem_roots)
    fun _ _ hes _ hw ↦ AList.mem_keys.mp (mem_resolvers_of_mem_edges hes hw)

theorem referencesResolve_of_order {order : List Str} (h : cfg.resolverBuildOrder = .ok order) :
    cfg.ReferencesResolve :=
  resolved_resolverGraph.mp (exists_order_iff.mp ⟨order, h⟩).1

/-- An order lists each declared resolver once, after those it refers to. -/
theorem lists_of_order {order : List Str} (h : cfg.resolverBuildOrder = .ok order) :
    order.Nodup ∧ (∀ a, a ∈ order ↔ a ∈ cfg.resolvers) ∧
      ∀ l a r, order = l ++ a :: r → ∀ b, cfg.RefersTo a b → b ∈ l := by
  obtain ⟨hordered, hroots⟩ := Graph.ordered_of_buildOrder h
  have hres := (exists_order_iff.mp ⟨order, h⟩).1
  refine ⟨hordered.nodup, fun a ↦ ⟨fun ha ↦ ?_, fun ha ↦ hroots a ?_⟩, fun l a r heq b hab ↦ ?_⟩
  · obtain ⟨es, hes⟩ := hordered.known a ha
    exact AList.mem_keys.mpr (cfg.resolverGraph.mem_nodes hes)
  · exact mem_roots.mpr (AList.mem_keys.mp ha)
  · exact hordered.closed l a r heq b ((edge_resolverGraph_of_resolved hres).symm ▸ hab)

end References

variable {cfg} in
/-- **The build order.** There is one exactly when all references name declared resolvers and none
leads back to where it started; it lists each declared resolver once, after those it refers to. A
table whose references resolve but do lead back is refused with a walk that shows it. -/
theorem resolverBuildOrder_spec :
    ((∃ order, cfg.resolverBuildOrder = .ok order) ↔
      cfg.ReferencesResolve ∧ ∀ a, ¬TransGen cfg.RefersTo a a) ∧
    (∀ order, cfg.resolverBuildOrder = .ok order →
      order.Nodup ∧ (∀ a, a ∈ order ↔ a ∈ cfg.resolvers) ∧
        ∀ l a r, order = l ++ a :: r → ∀ b, cfg.RefersTo a b → b ∈ l) ∧
    (cfg.ReferencesResolve → (∃ a, TransGen cfg.RefersTo a a) →
      ∃ path, cfg.ReferenceCycle path ∧ cfg.resolverBuildOrder = .error (resolverCycle path)) := by
  have hacyclic (hres : cfg.resolverGraph.Resolved) :
      cfg.resolverGraph.Acyclic ↔ ∀ a, ¬TransGen cfg.RefersTo a a := by
    rw [Graph.Acyclic, edge_resolverGraph_of_resolved hres]
  refine ⟨?_, fun order ↦ lists_of_order, fun href ⟨a, ha⟩ ↦ ?_⟩
  · rw [← resolved_resolverGraph]
    exact exists_order_iff.trans ⟨fun h ↦ ⟨h.1, (hacyclic h.1).mp h.2⟩, fun h ↦ ⟨h.1, (hacyclic h.1).mpr h.2⟩⟩
  · have hres := resolved_resolverGraph.mpr href
    obtain ⟨path, ⟨front, b, hpath, hchain, hb⟩, herror⟩ :=
      Graph.buildOrder_of_cyclic (fun v ↦ mem_roots) hres
        fun h ↦ (hacyclic hres).mp h a ha
    rw [edge_resolverGraph_of_resolved hres] at hchain
    exact ⟨path, ⟨front, b, hpath, hchain, hb⟩, herror⟩

end Config

end SniGate
