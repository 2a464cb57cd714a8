import SniGate.Collections.Map
import Mathlib.Data.List.Chain
import Mathlib.Logic.Relation
import Mathlib.Tactic

/-!
# Depth-first search with an explicit stack

A search that lists the nodes of a graph so that each stands after those it points to, or reports a
cycle. Its stack holds two kinds of entries: one to enter a node, with the path that led to it, and
one to leave it once everything it points to is done. A node may wait on the stack more than once;
only the first entry that is popped does anything.

## The invariant

The nodes with a leaving entry on the stack are exactly the open ones, and read from the bottom they
are a walk (`PathsOk`). Everything that such a node points to is done, or has an entry above it
(`PendingOk`). So a node that is left has only finished successors, and an entry for an open node
closes a cycle.

The edges of a node may fail to be known; the search then reports that failure.
-/

namespace SniGate

/-- A finite graph whose edges may fail to be known. -/
structure Graph (V ε : Type) where
  nodes : List V
  edges : V → Except ε (List V)
  /-- What is reported for a closed path. -/
  cycle : List V → ε
  mem_nodes : ∀ {v es}, edges v = .ok es → v ∈ nodes

namespace DepthFirst

/-- How far the search is with a node that it has met. -/
inductive Mark
  | opened
  | done
deriving DecidableEq, Repr

/-- An entry of the stack. -/
inductive Step (V : Type)
  /-- Enter a node, met along `path`, which ends at it. -/
  | enter (v : V) (path : List V)
  /-- Leave a node. -/
  | exit (v : V)

/-- The state of the search; the top of the stack is its head. -/
structure State (V : Type) where
  marks : Map V Mark
  order : List V
  stack : List (Step V)

end DepthFirst

open DepthFirst

namespace Graph

variable {V ε : Type} [DecidableEq V] (g : Graph V ε)

/-! ## The search -/

/-- The entries for the nodes at the end of `path` extended by one edge, the last one on top. -/
def entries (path es : List V) : List (Step V) :=
  (es.map fun e ↦ Step.enter e (path ++ [e])).reverse

/-- Pop one entry. -/
def step (s : State V) : Except ε (State V) :=
  match s.stack with
  | [] => .ok s
  | .exit v :: rest =>
    .ok { marks := s.marks.insert v .done, order := s.order ++ [v], stack := rest }
  | .enter v path :: rest =>
    match s.marks.lookup v with
    | some .done => .ok { s with stack := rest }
    | some .opened => .error (g.cycle path)
    | none =>
      match g.edges v with
      | .error e => .error e
      | .ok es =>
        .ok { s with
          marks := s.marks.insert v .opened, stack := entries path es ++ .exit v :: rest }

/-- What entering a node costs at most. -/
def cost (v : V) : ℕ :=
  match g.edges v with
  | .ok es => es.length + 2
  | .error _ => 0

/-- A bound on the number of entries still to be popped. -/
def weight (s : State V) : ℕ :=
  (g.nodes.map fun v ↦ if s.marks.lookup v = none then g.cost v else 0).sum + s.stack.length

/-- A sum that drops by `c` at one index, and rises nowhere. -/
theorem sum_map_add_le {α : Type} {l : List α} {f k : α → ℕ} {a : α} {c : ℕ} (ha : a ∈ l)
    (hle : ∀ b ∈ l, f b ≤ k b) (hdrop : f a + c ≤ k a) : (l.map f).sum + c ≤ (l.map k).sum := by
  induction l with
  | nil => exact absurd ha (by simp)
  | cons b l ih =>
    rw [List.forall_mem_cons] at hle
    rw [List.map_cons, List.map_cons, List.sum_cons, List.sum_cons]
    rcases List.mem_cons.mp ha with rfl | ha
    · have hrest : (l.map f).sum ≤ (l.map k).sum := List.sum_le_sum hle.2
      linarith
    · have hrest := ih ha hle.2
      linarith [hle.1]

theorem sum_insert_le {m : Map V Mark} {v : V} (mark : Mark) :
    (g.nodes.map fun w ↦ if (m.insert v mark).lookup w = none then g.cost w else 0).sum ≤
      (g.nodes.map fun w ↦ if m.lookup w = none then g.cost w else 0).sum := by
  refine List.sum_le_sum fun w _ ↦ ?_
  by_cases hw : w = v
  · subst hw
    simp
  · rw [AList.lookup_insert_ne hw]

theorem weight_step {s s' : State V} (hne : s.stack ≠ []) (h : g.step s = .ok s') :
    g.weight s' < g.weight s := by
  obtain ⟨marks, order, stack⟩ := s
  rcases stack with _ | ⟨entry, rest⟩
  · exact absurd rfl hne
  rcases entry with ⟨v, path⟩ | v
  · cases hmark : marks.lookup v with
    | none =>
      cases hedges : g.edges v with
      | error e =>
        simp only [step, hmark, hedges] at h
        exact absurd h (by simp)
      | ok es =>
        simp only [step, hmark, hedges] at h
        obtain rfl := Except.ok.inj h
        have hsum := sum_map_add_le (c := es.length + 2) (g.mem_nodes hedges)
          (f := fun w ↦ if (marks.insert v Mark.opened).lookup w = none then g.cost w else 0)
          (k := fun w ↦ if marks.lookup w = none then g.cost w else 0) ?_ ?_
        · simp only [weight, entries, List.length_append, List.length_reverse, List.length_map,
            List.length_cons]
          linarith
        · intro w _
          by_cases hw : w = v
          · subst hw
            simp
          · rw [AList.lookup_insert_ne hw]
        · simp [hmark, cost, hedges]
    | some mark =>
      cases mark with
      | opened =>
        simp only [step, hmark] at h
        exact absurd h (by simp)
      | done =>
        simp only [step, hmark] at h
        obtain rfl := Except.ok.inj h
        simp [weight]
  · simp only [step] at h
    obtain rfl := Except.ok.inj h
    have hle := g.sum_insert_le (m := marks) (v := v) .done
    simp only [weight, List.length_cons]
    linarith

/-- Pop entries until the stack is empty. -/
def run (s : State V) : Except ε (State V) :=
  if hs : s.stack = [] then .ok s
  else
    match h : g.step s with
    | .error e => .error e
    | .ok s' => run s'
termination_by g.weight s
decreasing_by exact g.weight_step hs h

/-- Search from one root, unless it is done. -/
def search (s : State V) (root : V) : Except ε (State V) :=
  if s.marks.lookup root = some .done then .ok s
  else g.run { s with stack := [.enter root [root]] }

/-- The nodes in order, each after those it points to. -/
def buildOrder (roots : List V) : Except ε (List V) :=
  (roots.foldlM g.search { marks := ∅, order := [], stack := [] }).map State.order

end Graph

end SniGate
