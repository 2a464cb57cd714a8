import SniGate.Graph.DepthFirst

/-!
# What the search lists

The search ends with a list of the nodes in which each stands once and after everything it points
to, exactly when the edges of all nodes are known and no node reaches itself (`buildOrder_ok_iff`).
When the edges are known and some node does, the path it reports is a walk that ends where it has
been before (`buildOrder_of_cyclic`).

## Design choices

The search is described by an invariant of its state (`Inv`) with one lemma for each kind of step.
The list grows at its end, and the invariant says of every front of it what the result says of the
whole. Walks are lists of nodes, so that the path of an error is one as it stands.
-/

namespace SniGate

open DepthFirst Relation

namespace Graph

variable {V ε : Type} (g : Graph V ε)

/-- `a` points to `b`. -/
def Edge (a b : V) : Prop := ∃ es, g.edges a = .ok es ∧ b ∈ es

/-- The edges of every node are known, and lead to nodes. -/
def Resolved : Prop := ∀ v ∈ g.nodes, ∃ es, g.edges v = .ok es ∧ ∀ w ∈ es, w ∈ g.nodes

/-- No node reaches itself. -/
def Acyclic : Prop := ∀ v, ¬TransGen g.Edge v v

/-! ## Lists in order -/

/-- A list in which each node stands once and after everything it points to. -/
structure Ordered (order : List V) : Prop where
  nodup : order.Nodup
  known : ∀ v ∈ order, ∃ es, g.edges v = .ok es
  closed : ∀ l v r, order = l ++ v :: r → ∀ w, g.Edge v w → w ∈ l

/-- A walk that ends where it has been before. -/
def ClosedWalk (path : List V) : Prop :=
  ∃ front v, path = front ++ [v] ∧ path.IsChain g.Edge ∧ v ∈ front

section Ordered

variable {g} {order path : List V} {v w : V}

theorem Ordered.append (h : g.Ordered order) (hv : v ∉ order) (hes : ∃ es, g.edges v = .ok es)
    (hclosed : ∀ w, g.Edge v w → w ∈ order) : g.Ordered (order ++ [v]) where
  nodup := List.nodup_append.mpr ⟨h.nodup, List.nodup_singleton v, by
    rintro a ha b hb rfl
    exact hv (List.mem_singleton.mp hb ▸ ha)⟩
  known u hu := by
    rcases List.mem_append.mp hu with hu | hu
    · exact h.known u hu
    · exact List.mem_singleton.mp hu ▸ hes
  closed l u r heq := by
    rcases List.eq_nil_or_concat r with rfl | ⟨r, b, rfl⟩
    · obtain ⟨rfl, hu⟩ := List.append_inj' heq rfl
      obtain rfl := (List.cons.inj hu).1
      exact hclosed
    · rw [List.concat_eq_append, ← List.cons_append, ← List.append_assoc] at heq
      exact h.closed l u r (List.append_inj' heq rfl).1

theorem Ordered.idxOf_lt [DecidableEq V] (h : g.Ordered order) (hv : v ∈ order) (hvw : g.Edge v w) :
    w ∈ order ∧ order.idxOf w < order.idxOf v := by
  obtain ⟨l, r, rfl⟩ := List.append_of_mem hv
  have hw : w ∈ l := h.closed l v r rfl w hvw
  have hvl : v ∉ l := fun hin ↦ (List.nodup_append.mp h.nodup).2.2 v hin v List.mem_cons_self rfl
  refine ⟨List.mem_append_left _ hw, ?_⟩
  rw [List.idxOf_append_of_mem hw, List.idxOf_append_of_notMem hvl]
  exact Nat.lt_of_lt_of_le (List.idxOf_lt_length_iff.mpr hw) (Nat.le_add_right _ _)

theorem Ordered.idxOf_lt_of_transGen [DecidableEq V] (h : g.Ordered order) (hv : v ∈ order)
    (hvw : TransGen g.Edge v w) : w ∈ order ∧ order.idxOf w < order.idxOf v := by
  induction hvw with
  | single hvw => exact h.idxOf_lt hv hvw
  | tail _ huw ih =>
    obtain ⟨hu, hlt⟩ := ih
    obtain ⟨hw, hlt'⟩ := h.idxOf_lt hu huw
    exact ⟨hw, hlt'.trans hlt⟩

theorem Ordered.acyclic (h : g.Ordered order) (hall : ∀ v ∈ g.nodes, v ∈ order) : g.Acyclic := by
  classical
  intro v hcycle
  obtain ⟨w, ⟨es, hes, -⟩, -⟩ := TransGen.head'_iff.mp hcycle
  exact lt_irrefl _ (h.idxOf_lt_of_transGen (hall v (g.mem_nodes hes)) hcycle).2

theorem ClosedWalk.not_acyclic (h : g.ClosedWalk path) : ¬g.Acyclic := by
  obtain ⟨front, v, rfl, hchain, hv⟩ := h
  obtain ⟨l, r, rfl⟩ := List.append_of_mem hv
  rw [List.append_assoc, List.cons_append] at hchain
  have hloop : (v :: (r ++ [v])).IsChain g.Edge := hchain.right_of_append
  have hreach : ∀ (us : List V) (u : V), (u :: (us ++ [v])).IsChain g.Edge →
      TransGen g.Edge u v := by
    intro us
    induction us with
    | nil => exact fun u hu ↦ .single (List.isChain_pair.mp hu)
    | cons a us ih =>
      intro u hu
      rw [List.cons_append, List.isChain_cons_cons] at hu
      exact .head hu.1 (ih a hu.2)
  exact fun hacyclic ↦ hacyclic v (hreach r v hloop)

end Ordered

/-! ## The invariant -/

/-- The open nodes of a stack, the top one first. -/
def openNodes (stack : List (Step V)) : List V :=
  stack.filterMap fun
    | .enter _ _ => none
    | .exit v => some v

/-- The nodes a stack mentions. -/
def stackNodes (stack : List (Step V)) : List V :=
  stack.map fun
    | .enter v _ => v
    | .exit v => v

/-- Everything an open node points to is listed, or waits above it; `above` is what waits above the
stack. -/
def PendingOk (order : List V) : List V → List (Step V) → Prop
  | _, [] => True
  | above, .enter v _ :: rest => PendingOk order (v :: above) rest
  | above, .exit v :: rest =>
    (∀ w, g.Edge v w → w ∈ order ∨ w ∈ above) ∧ PendingOk order (v :: above) rest

/-- The path of an entry is the walk along the open nodes below it. -/
def PathsOk : List (Step V) → Prop
  | [] => True
  | .enter v path :: rest =>
    (path = (openNodes rest).reverse ++ [v] ∧ path.IsChain g.Edge) ∧ PathsOk rest
  | .exit _ :: rest => PathsOk rest

/-- The invariant of the search. -/
structure Inv [DecidableEq V] (s : State V) : Prop where
  ordered : g.Ordered s.order
  done : ∀ v, s.marks.lookup v = some .done ↔ v ∈ s.order
  opened : ∀ v, s.marks.lookup v = some .opened ↔ v ∈ openNodes s.stack
  known : ∀ v ∈ openNodes s.stack, ∃ es, g.edges v = .ok es
  nodup : (openNodes s.stack).Nodup
  pending : g.PendingOk s.order [] s.stack
  paths : g.PathsOk s.stack

section Inv

variable {g} {order order' above above' es path : List V} {stack rest : List (Step V)}
  {s s' : State V} {v w : V}

theorem PendingOk.mono (h : g.PendingOk order above stack)
    (horder : ∀ w ∈ order, w ∈ order') (habove : ∀ w ∈ above, w ∈ order' ∨ w ∈ above') :
    g.PendingOk order' above' stack := by
  have hcons : ∀ {above above' : List V} (v : V), (∀ w ∈ above, w ∈ order' ∨ w ∈ above') →
      ∀ w ∈ v :: above, w ∈ order' ∨ w ∈ v :: above' := by
    intro above above' v habove w hw
    rcases List.mem_cons.mp hw with rfl | hw
    · exact .inr List.mem_cons_self
    · exact (habove w hw).imp_right (List.mem_cons_of_mem v)
  induction stack generalizing above above' with
  | nil => trivial
  | cons entry rest ih =>
    cases entry with
    | enter v path => exact ih h (hcons v habove)
    | exit v =>
      refine ⟨fun w hw ↦ ?_, ih h.2 (hcons v habove)⟩
      rcases h.1 w hw with hin | hin
      · exact .inl (horder w hin)
      · exact habove w hin

theorem openNodes_entries : openNodes (entries path es ++ stack) = openNodes stack := by
  have hnone : openNodes (entries path es) = [] := by
    rw [openNodes, List.filterMap_eq_nil_iff]
    intro entry hin
    obtain ⟨e, -, rfl⟩ := List.mem_map.mp (List.mem_reverse.mp hin)
    rfl
  rw [openNodes, List.filterMap_append]
  change openNodes (entries path es) ++ openNodes stack = _
  rw [hnone, List.nil_append]

theorem pendingOk_entries (h : ∀ above', (∀ e ∈ es, e ∈ above') → (∀ w ∈ above, w ∈ above') →
    g.PendingOk order above' stack) : g.PendingOk order above (entries path es ++ stack) := by
  have hrev : ∀ (rs above : List V), (∀ above', (∀ e ∈ rs, e ∈ above') → (∀ w ∈ above, w ∈ above') →
      g.PendingOk order above' stack) →
      g.PendingOk order above ((rs.map fun e ↦ Step.enter e (path ++ [e])) ++ stack) := by
    intro rs
    induction rs with
    | nil => exact fun above h ↦ h above (by simp) fun _ hw ↦ hw
    | cons r rs ih =>
      intro above h
      refine ih (r :: above) fun above' hrs habove ↦ h above' ?_ fun w hw ↦
        habove w (List.mem_cons_of_mem r hw)
      rintro e he
      rcases List.mem_cons.mp he with rfl | he
      · exact habove _ List.mem_cons_self
      · exact hrs e he
  rw [entries, ← List.map_reverse]
  exact hrev es.reverse above fun above' hes habove ↦
    h above' (fun e he ↦ hes e (List.mem_reverse.mpr he)) habove

theorem pathsOk_entries (hpath : path = (openNodes stack).reverse) (hchain : path.IsChain g.Edge)
    (hes : ∀ e ∈ es, ∀ v ∈ path.getLast?, g.Edge v e) (h : g.PathsOk stack) :
    g.PathsOk (entries path es ++ stack) := by
  have hrev : ∀ rs : List V, (∀ e ∈ rs, e ∈ es) →
      g.PathsOk ((rs.map fun e ↦ Step.enter e (path ++ [e])) ++ stack) ∧
        openNodes ((rs.map fun e ↦ Step.enter e (path ++ [e])) ++ stack) = openNodes stack := by
    intro rs
    induction rs with
    | nil => exact fun _ ↦ ⟨h, rfl⟩
    | cons r rs ih =>
      intro hrs
      obtain ⟨hok, hopen⟩ := ih fun e he ↦ hrs e (List.mem_cons_of_mem r he)
      have hr : r ∈ es := hrs r List.mem_cons_self
      refine ⟨⟨⟨?_, ?_⟩, hok⟩, hopen⟩
      · exact congrArg (· ++ [r]) (hpath.trans (congrArg List.reverse hopen.symm))
      · exact List.isChain_append.mpr ⟨hchain, List.isChain_singleton r, fun v hv w hw ↦
          Option.some.inj hw ▸ hes r hr v hv⟩
  rw [entries, ← List.map_reverse]
  exact (hrev es.reverse fun e he ↦ List.mem_reverse.mp he).1

/-! ## One step -/

variable [DecidableEq V]

theorem Inv.exit (h : g.Inv s) (hs : s.stack = .exit v :: rest) :
    g.Inv { marks := s.marks.insert v .done, order := s.order ++ [v], stack := rest } := by
  obtain ⟨hordered, hdone, hopened, hknown, hnodup, hpending, hpaths⟩ := h
  rw [hs] at hopened hknown hnodup hpending hpaths
  have hopen : openNodes (.exit v :: rest) = v :: openNodes rest := rfl
  rw [hopen] at hopened hknown hnodup
  have hv : v ∉ openNodes rest := (List.nodup_cons.mp hnodup).1
  have hvorder : v ∉ s.order := fun hin ↦ by
    have hmark := (hopened v).mpr List.mem_cons_self
    rw [(hdone v).mpr hin] at hmark
    exact absurd hmark (by simp)
  have hclosed : ∀ w, g.Edge v w → w ∈ s.order := fun w hw ↦
    (hpending.1 w hw).resolve_right List.not_mem_nil
  refine ⟨hordered.append hvorder (hknown v List.mem_cons_self) hclosed, fun u ↦ ?_, fun u ↦ ?_,
    fun u hu ↦ hknown u (List.mem_cons_of_mem v hu), (List.nodup_cons.mp hnodup).2, ?_, hpaths⟩
  · by_cases hu : u = v
    · subst hu
      simp
    · rw [AList.lookup_insert_ne hu, hdone]
      simp [hu]
  · by_cases hu : u = v
    · subst hu
      simp [hv]
    · rw [AList.lookup_insert_ne hu, hopened]
      simp [hu]
  · refine hpending.2.mono (fun w hw ↦ List.mem_append_left _ hw) fun w hw ↦ .inl ?_
    exact List.mem_append_right _ hw

theorem Inv.skip (h : g.Inv s) (hs : s.stack = .enter v path :: rest) (hv : v ∈ s.order) :
    g.Inv { s with stack := rest } := by
  obtain ⟨hordered, hdone, hopened, hknown, hnodup, hpending, hpaths⟩ := h
  rw [hs] at hopened hknown hnodup hpending hpaths
  refine ⟨hordered, hdone, hopened, hknown, hnodup, ?_, hpaths.2⟩
  refine PendingOk.mono (show g.PendingOk _ _ rest from hpending) (fun _ hw ↦ hw) fun w hw ↦ .inl ?_
  exact List.mem_singleton.mp hw ▸ hv

theorem Inv.enter (h : g.Inv s) (hs : s.stack = .enter v path :: rest)
    (hmark : s.marks.lookup v = none) (hes : g.edges v = .ok es) :
    g.Inv { s with
      marks := s.marks.insert v .opened, stack := entries path es ++ .exit v :: rest } := by
  obtain ⟨hordered, hdone, hopened, hknown, hnodup, hpending, hpaths⟩ := h
  rw [hs] at hopened hknown hnodup hpending hpaths
  have hrest : openNodes (.enter v path :: rest) = openNodes rest := rfl
  rw [hrest] at hopened hknown hnodup
  have hv : v ∉ openNodes rest := fun hin ↦ by
    rw [(hopened v).mpr hin] at hmark
    exact absurd hmark (by simp)
  have hvorder : v ∉ s.order := fun hin ↦ by
    rw [(hdone v).mpr hin] at hmark
    exact absurd hmark (by simp)
  have hopen : openNodes (entries path es ++ .exit v :: rest) = v :: openNodes rest :=
    openNodes_entries
  refine ⟨hordered, fun u ↦ ?_, fun u ↦ ?_, ?_, ?_, ?_, ?_⟩
  · by_cases hu : u = v
    · subst hu
      simp [hvorder]
    · rw [AList.lookup_insert_ne hu, hdone]
  · rw [hopen]
    by_cases hu : u = v
    · subst hu
      simp
    · rw [AList.lookup_insert_ne hu, hopened]
      simp [hu]
  · rw [hopen]
    rintro u hu
    rcases List.mem_cons.mp hu with rfl | hu
    · exact ⟨es, hes⟩
    · exact hknown u hu
  · rw [hopen]
    exact List.nodup_cons.mpr ⟨hv, hnodup⟩
  · refine pendingOk_entries fun above' habove _ ↦ ⟨fun w ⟨es', hes', hw⟩ ↦ .inr ?_, ?_⟩
    · rw [hes] at hes'
      exact habove w (Except.ok.inj hes' ▸ hw)
    · refine PendingOk.mono (show g.PendingOk _ _ rest from hpending) (fun _ hw ↦ hw)
        fun w hw ↦ .inr ?_
      exact List.mem_singleton.mp hw ▸ List.mem_cons_self
  · obtain ⟨⟨rfl, hchain⟩, hpaths⟩ := hpaths
    refine pathsOk_entries ?_ hchain ?_ hpaths
    · exact (List.reverse_cons).symm
    · intro e he u hu
      rw [List.getLast?_concat] at hu
      exact Option.some.inj hu ▸ ⟨es, hes, he⟩

/-- An entry for an open node closes a walk. -/
theorem Inv.closedWalk (h : g.Inv s) (hs : s.stack = .enter v path :: rest)
    (hmark : s.marks.lookup v = some .opened) : g.ClosedWalk path := by
  have hin := (h.opened v).mp hmark
  have hpaths := h.paths
  rw [hs] at hin hpaths
  obtain ⟨⟨hpath, hchain⟩, -⟩ := hpaths
  exact ⟨_, v, hpath, hchain, List.mem_reverse.mpr hin⟩

/-- **One step.** It keeps the invariant, or reports a closed walk or unknown edges. -/
theorem Inv.step (h : g.Inv s) :
    (∀ s', g.step s = .ok s' → g.Inv s' ∧ ∀ v ∈ s.order ++ stackNodes s.stack,
      v ∈ s'.order ++ stackNodes s'.stack) ∧
    (∀ e, g.step s = .error e → (∃ path, g.ClosedWalk path ∧ e = g.cycle path) ∨
      ∃ v ∈ stackNodes s.stack, g.edges v = .error e) := by
  cases hs : s.stack with
  | nil =>
    have hok : g.step s = .ok s := by simp only [Graph.step, hs]
    rw [hok]
    refine ⟨fun s' heq ↦ ?_, fun e heq ↦ absurd heq (by simp)⟩
    obtain rfl := Except.ok.inj heq
    exact ⟨h, fun v hv ↦ hs ▸ hv⟩
  | cons entry rest =>
    cases entry with
    | exit v =>
      simp only [Graph.step, hs]
      refine ⟨fun s' heq ↦ ?_, fun e heq ↦ absurd heq (by simp)⟩
      obtain rfl := Except.ok.inj heq
      refine ⟨h.exit hs, fun u hu ↦ ?_⟩
      simpa [stackNodes, or_assoc] using hu
    | enter v path =>
      cases hmark : s.marks.lookup v with
      | none =>
        cases hes : g.edges v with
        | error e =>
          simp only [Graph.step, hs, hmark, hes]
          refine ⟨fun s' heq ↦ absurd heq (by simp), fun e' heq ↦ .inr ⟨v, ?_, ?_⟩⟩
          · exact List.mem_cons_self
          · exact (Except.error.inj heq) ▸ hes
        | ok es =>
          simp only [Graph.step, hs, hmark, hes]
          refine ⟨fun s' heq ↦ ?_, fun e heq ↦ absurd heq (by simp)⟩
          obtain rfl := Except.ok.inj heq
          refine ⟨h.enter hs hmark hes, fun u hu ↦ ?_⟩
          have hu' : u ∈ s.order ∨ u ∈ stackNodes (.exit v :: rest) := List.mem_append.mp hu
          refine List.mem_append.mpr (hu'.imp_right fun hu ↦ ?_)
          rw [stackNodes, List.map_append]
          exact List.mem_append_right _ hu
      | some mark =>
        cases mark with
        | opened =>
          simp only [Graph.step, hs, hmark]
          refine ⟨fun s' heq ↦ absurd heq (by simp), fun e heq ↦ .inl ⟨path, ?_, ?_⟩⟩
          · exact h.closedWalk hs hmark
          · exact (Except.error.inj heq).symm
        | done =>
          simp only [Graph.step, hs, hmark]
          refine ⟨fun s' heq ↦ ?_, fun e heq ↦ absurd heq (by simp)⟩
          obtain rfl := Except.ok.inj heq
          have hv := (h.done v).mp hmark
          refine ⟨h.skip hs hv, fun u hu ↦ ?_⟩
          rcases List.mem_append.mp hu with hu | hu
          · exact List.mem_append_left _ hu
          · rcases List.mem_cons.mp hu with rfl | hu
            · exact List.mem_append_left _ hv
            · exact List.mem_append_right _ hu

theorem stackNodes_step (hres : g.Resolved) (hnodes : ∀ v ∈ stackNodes s.stack, v ∈ g.nodes)
    (h : g.step s = .ok s') : ∀ v ∈ stackNodes s'.stack, v ∈ g.nodes := by
  cases hs : s.stack with
  | nil =>
    simp only [Graph.step, hs] at h
    obtain rfl := Except.ok.inj h
    exact hnodes
  | cons entry rest =>
    rw [hs] at hnodes
    have hrest : ∀ v ∈ stackNodes rest, v ∈ g.nodes := fun v hv ↦
      hnodes v (List.mem_cons_of_mem _ hv)
    cases entry with
    | exit v =>
      simp only [Graph.step, hs] at h
      obtain rfl := Except.ok.inj h
      exact hrest
    | enter v path =>
      cases hmark : s.marks.lookup v with
      | none =>
        cases hes : g.edges v with
        | error e =>
          simp only [Graph.step, hs, hmark, hes] at h
          exact absurd h (by simp)
        | ok es =>
          simp only [Graph.step, hs, hmark, hes] at h
          obtain rfl := Except.ok.inj h
          have hv : v ∈ g.nodes := g.mem_nodes hes
          intro u hu
          rw [stackNodes, List.map_append] at hu
          rcases List.mem_append.mp hu with hu | hu
          · obtain ⟨es', hes', hin⟩ := hres v hv
            obtain ⟨entry, hentry, rfl⟩ := List.mem_map.mp hu
            obtain ⟨e, he, rfl⟩ := List.mem_map.mp (List.mem_reverse.mp hentry)
            rw [hes] at hes'
            exact hin e (Except.ok.inj hes' ▸ he)
          · rcases List.mem_cons.mp hu with rfl | hu
            · exact hv
            · exact hrest u hu
      | some mark =>
        cases mark with
        | opened =>
          simp only [Graph.step, hs, hmark] at h
          exact absurd h (by simp)
        | done =>
          simp only [Graph.step, hs, hmark] at h
          obtain rfl := Except.ok.inj h
          exact hrest

/-! ## Runs -/

theorem run_eq_ok (h : g.Inv s) (hrun : g.run s = .ok s') :
    g.Inv s' ∧ s'.stack = [] ∧ ∀ v ∈ s.order ++ stackNodes s.stack, v ∈ s'.order := by
  fun_induction Graph.run g s with
  | case1 s hs =>
    obtain rfl := Except.ok.inj hrun
    refine ⟨h, hs, fun v hv ↦ ?_⟩
    rw [hs] at hv
    simpa [stackNodes] using hv
  | case2 s hs e hstep => exact absurd hrun (by simp)
  | case3 s hs t hstep ih =>
    obtain ⟨ht, hkept⟩ := h.step.1 t hstep
    obtain ⟨hs', hstack, hall⟩ := ih ht hrun
    exact ⟨hs', hstack, fun v hv ↦ hall v (hkept v hv)⟩

theorem run_eq_error {e : ε} (hres : g.Resolved) (h : g.Inv s)
    (hnodes : ∀ v ∈ stackNodes s.stack, v ∈ g.nodes) (hrun : g.run s = .error e) :
    ∃ path, g.ClosedWalk path ∧ e = g.cycle path := by
  fun_induction Graph.run g s with
  | case1 s hs => exact absurd hrun (by simp)
  | case2 s hs e' hstep =>
    obtain rfl := Except.error.inj hrun
    rcases h.step.2 e' hstep with hcycle | ⟨v, hv, hedges⟩
    · exact hcycle
    · obtain ⟨es, hes, -⟩ := hres v (hnodes v hv)
      exact absurd (hes.symm.trans hedges) (by simp)
  | case3 s hs t hstep ih =>
    exact ih (h.step.1 t hstep).1 (stackNodes_step hres hnodes hstep) hrun

theorem Inv.root (h : g.Inv s) (hs : s.stack = []) (root : V) :
    g.Inv { s with stack := [.enter root [root]] } := by
  obtain ⟨hordered, hdone, hopened, -, -, -, -⟩ := h
  rw [hs] at hopened
  exact ⟨hordered, hdone, hopened, fun v hv ↦ absurd hv (by simp [openNodes]), List.nodup_nil,
    trivial, ⟨rfl, List.isChain_singleton root⟩, trivial⟩

theorem search_eq_ok {root : V} (h : g.Inv s) (hs : s.stack = [])
    (hrun : g.search s root = .ok s') :
    g.Inv s' ∧ s'.stack = [] ∧ (∀ v ∈ s.order, v ∈ s'.order) ∧ root ∈ s'.order := by
  rw [search] at hrun
  split_ifs at hrun with hdone
  · obtain rfl := Except.ok.inj hrun
    exact ⟨h, hs, fun _ hv ↦ hv, (h.done root).mp hdone⟩
  · obtain ⟨hs', hstack, hall⟩ := run_eq_ok (h.root hs root) hrun
    exact ⟨hs', hstack, fun v hv ↦ hall v (List.mem_append_left _ hv),
      hall root (List.mem_append_right _ List.mem_cons_self)⟩

theorem search_eq_error {root : V} {e : ε} (hres : g.Resolved) (h : g.Inv s) (hs : s.stack = [])
    (hroot : root ∈ g.nodes) (hrun : g.search s root = .error e) :
    ∃ path, g.ClosedWalk path ∧ e = g.cycle path := by
  rw [search] at hrun
  split_ifs at hrun
  refine run_eq_error hres (h.root hs root) (fun v hv ↦ ?_) hrun
  exact List.mem_singleton.mp hv ▸ hroot

end Inv

/-! ## The list -/

section BuildOrder

variable {g} [DecidableEq V] {roots order : List V}

theorem inv_init : g.Inv { marks := ∅, order := [], stack := [] } := by
  refine ⟨⟨List.nodup_nil, by simp, fun l v r heq ↦ absurd heq (by simp)⟩, by simp,
    by simp [openNodes], by simp [openNodes], List.nodup_nil, trivial, trivial⟩

theorem foldlM_search_eq_ok {s s' : State V} (h : g.Inv s) (hs : s.stack = [])
    (hrun : roots.foldlM g.search s = .ok s') :
    g.Inv s' ∧ (∀ v ∈ s.order, v ∈ s'.order) ∧ ∀ root ∈ roots, root ∈ s'.order := by
  induction roots generalizing s with
  | nil =>
    obtain rfl := Except.ok.inj hrun
    exact ⟨h, fun _ hv ↦ hv, by simp⟩
  | cons root roots ih =>
    rw [List.foldlM_cons] at hrun
    cases hsearch : g.search s root with
    | error e =>
      rw [hsearch] at hrun
      exact absurd hrun (by simp [bind, Except.bind])
    | ok t =>
      rw [hsearch] at hrun
      obtain ⟨ht, hstack, hkept, hroot⟩ := search_eq_ok h hs hsearch
      obtain ⟨hs', hall, hroots⟩ := ih ht hstack hrun
      refine ⟨hs', fun v hv ↦ hall v (hkept v hv), fun v hv ↦ ?_⟩
      rcases List.mem_cons.mp hv with rfl | hv
      · exact hall _ hroot
      · exact hroots v hv

theorem foldlM_search_eq_error {s : State V} {e : ε} (hres : g.Resolved) (h : g.Inv s)
    (hs : s.stack = []) (hroots : ∀ root ∈ roots, root ∈ g.nodes)
    (hrun : roots.foldlM g.search s = .error e) : ∃ path, g.ClosedWalk path ∧ e = g.cycle path := by
  induction roots generalizing s with
  | nil => exact absurd hrun (by simp [pure, Except.pure])
  | cons root roots ih =>
    rw [List.foldlM_cons] at hrun
    rw [List.forall_mem_cons] at hroots
    cases hsearch : g.search s root with
    | error e' =>
      rw [hsearch] at hrun
      obtain rfl := Except.error.inj hrun
      exact search_eq_error hres h hs hroots.1 hsearch
    | ok t =>
      rw [hsearch] at hrun
      obtain ⟨ht, hstack, -, -⟩ := search_eq_ok h hs hsearch
      exact ih ht hstack hroots.2 hrun

theorem ordered_of_buildOrder (h : g.buildOrder roots = .ok order) :
    g.Ordered order ∧ ∀ root ∈ roots, root ∈ order := by
  rw [buildOrder] at h
  cases hrun : roots.foldlM g.search { marks := ∅, order := [], stack := [] } with
  | error e =>
    rw [hrun] at h
    exact absurd h (by simp [Except.map])
  | ok s =>
    rw [hrun] at h
    obtain rfl := Except.ok.inj h
    obtain ⟨hs, -, hroots⟩ := foldlM_search_eq_ok inv_init rfl hrun
    exact ⟨hs.ordered, hroots⟩

theorem closedWalk_of_buildOrder {e : ε} (hres : g.Resolved)
    (hroots : ∀ root ∈ roots, root ∈ g.nodes)
    (h : g.buildOrder roots = .error e) : ∃ path, g.ClosedWalk path ∧ e = g.cycle path := by
  rw [buildOrder] at h
  cases hrun : roots.foldlM g.search { marks := ∅, order := [], stack := [] } with
  | error e' =>
    rw [hrun] at h
    obtain rfl := Except.error.inj h
    exact foldlM_search_eq_error hres inv_init rfl hroots hrun
  | ok s =>
    rw [hrun] at h
    exact absurd h (by simp [Except.map])

/-- **When there is a list.** Started from all nodes, the search ends with a list exactly when all
edges are known, lead to nodes, and close no walk. -/
theorem buildOrder_ok_iff (hroots : ∀ v, v ∈ roots ↔ v ∈ g.nodes)
    (hclosed : ∀ v es, g.edges v = .ok es → ∀ w ∈ es, w ∈ g.nodes) :
    (∃ order, g.buildOrder roots = .ok order) ↔ g.Resolved ∧ g.Acyclic := by
  constructor
  · rintro ⟨order, h⟩
    obtain ⟨hordered, hall⟩ := ordered_of_buildOrder h
    have hnodes : ∀ v ∈ g.nodes, v ∈ order := fun v hv ↦ hall v ((hroots v).mpr hv)
    refine ⟨fun v hv ↦ ?_, hordered.acyclic hnodes⟩
    obtain ⟨es, hes⟩ := hordered.known v (hnodes v hv)
    exact ⟨es, hes, hclosed v es hes⟩
  · rintro ⟨hres, hacyclic⟩
    cases h : g.buildOrder roots with
    | ok order => exact ⟨order, rfl⟩
    | error e =>
      obtain ⟨path, hpath, -⟩ := closedWalk_of_buildOrder hres (fun v hv ↦ (hroots v).mp hv) h
      exact absurd hacyclic hpath.not_acyclic

/-- **What is reported otherwise.** -/
theorem buildOrder_of_cyclic (hroots : ∀ v, v ∈ roots ↔ v ∈ g.nodes) (hres : g.Resolved)
    (hcyclic : ¬g.Acyclic) :
    ∃ path, g.ClosedWalk path ∧ g.buildOrder roots = .error (g.cycle path) := by
  cases h : g.buildOrder roots with
  | ok order =>
    obtain ⟨hordered, hall⟩ := ordered_of_buildOrder h
    exact absurd (hordered.acyclic fun v hv ↦ hall v ((hroots v).mpr hv)) hcyclic
  | error e =>
    obtain ⟨path, hpath, rfl⟩ := closedWalk_of_buildOrder hres (fun v hv ↦ (hroots v).mp hv) h
    exact ⟨path, hpath, rfl⟩

end BuildOrder

end Graph

end SniGate
