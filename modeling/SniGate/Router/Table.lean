import SniGate.Router.Basic

/-!
# What a router was built from

The lookup maps of a built router hold exactly the entries of their kind, each key for one route,
and its regex routes stand in the order of their routes (`Built`). Two routers built from the same
entries up to order within a route therefore behave alike: `SameTable` says when two routers agree,
and that they then resolve every host and judge every wildcard alike.

## Design choices

What is said of a router is said of its lookups and not of how its maps are laid out, so that the
order in which entries were inserted does not come up. A key that is inserted twice is an error of
building, not a case of the table.
-/

namespace SniGate

namespace Router

/-! ## Building -/

/-- Among the entries one of the given kind has this key and this route. -/
def KeyIn (es : List (Str × RouteId)) (kind : Str → Pattern) (key : Str) (id : RouteId) : Prop :=
  ∃ e ∈ es, Pattern.of e.1 = kind key ∧ e.2 = id

/-- The regex route an entry stands for. -/
def entryRegex (regexNew : RegexNew) (regexes : Map Str RegexDef) (e : Str × RouteId) :
    Option RegexRoute :=
  match Pattern.of e.1 with
  | .regexRef name => (regexRoute regexNew regexes e.2 name).toOption
  | _ => none

/-- What a router built from the entries `es` holds. -/
structure Built (regexNew : RegexNew) (regexes : Map Str RegexDef) (es : List (Str × RouteId))
    (r : Router) : Prop where
  exact : ∀ k id, r.exact.lookup k = some id ↔ KeyIn es .exact k id
  wildcard : ∀ k id, r.wildcard.lookup k = some id ↔ KeyIn es .wildcard k id
  suffix : ∀ k id, r.suffix.lookup k = some id ↔ KeyIn es .suffix k id
  regex : r.regex = es.filterMap (entryRegex regexNew regexes)

section Build

variable {regexNew : RegexNew} {regexes : Map Str RegexDef} {es : List (Str × RouteId)}
  {e : Str × RouteId} {r r' : Router} {kind : Str → Pattern} {key pat : Str} {id : RouteId}

theorem not_keyIn_nil : ¬KeyIn [] kind key id := by
  rintro ⟨e, he, -⟩
  exact List.not_mem_nil he

theorem keyIn_append_singleton :
    KeyIn (es ++ [e]) kind key id ↔
      KeyIn es kind key id ∨ Pattern.of e.1 = kind key ∧ e.2 = id := by
  constructor
  · rintro ⟨e', he', hkey⟩
    rcases List.mem_append.mp he' with he' | he'
    · exact .inl ⟨e', he', hkey⟩
    · rw [List.mem_singleton.mp he'] at hkey
      exact .inr hkey
  · rintro (⟨e', he', hkey⟩ | hkey)
    · exact ⟨e', List.mem_append_left _ he', hkey⟩
    · exact ⟨e, List.mem_append_right _ (List.mem_singleton_self _), hkey⟩

/-- A map that the new entry does not go into still holds its kind. -/
theorem lookup_of_other {m : Map Str RouteId} (hkind : ∀ k, Pattern.of e.1 ≠ kind k)
    (h : ∀ k id, m.lookup k = some id ↔ KeyIn es kind k id) (k : Str) (id : RouteId) :
    m.lookup k = some id ↔ KeyIn (es ++ [e]) kind k id := by
  rw [h, keyIn_append_singleton]
  exact ⟨.inl, fun h ↦ h.resolve_right fun h ↦ hkind k h.1⟩

theorem lookup_insertUnique {m m' : Map Str RouteId}
    (hinj : ∀ k, kind key = kind k → key = k) (hkey : Pattern.of e.1 = kind key)
    (hins : insertUnique m key e.2 pat = .ok m')
    (h : ∀ k id, m.lookup k = some id ↔ KeyIn es kind k id) (k : Str) (id : RouteId) :
    m'.lookup k = some id ↔ KeyIn (es ++ [e]) kind k id := by
  rw [insertUnique] at hins
  split_ifs at hins with hmem
  · exact absurd hins (by simp [refuse])
  obtain rfl := Except.ok.inj hins
  rw [keyIn_append_singleton, hkey]
  by_cases hk : k = key
  · subst hk
    rw [AList.lookup_insert, Option.some_inj]
    have hnone : ∀ id, ¬KeyIn es kind k id := fun id hin ↦
      hmem (AList.lookup_isSome.mp (by rw [(h k id).mpr hin]; rfl))
    exact ⟨fun heq ↦ .inr ⟨rfl, heq⟩, fun hor ↦ (hor.resolve_left (hnone id)).2⟩
  · rw [AList.lookup_insert_ne hk, h]
    exact ⟨.inl, fun hor ↦ hor.resolve_right fun hor ↦ hk (hinj k hor.1).symm⟩

theorem built_addPattern (h : Built regexNew regexes es r)
    (hadd : addPattern regexNew regexes r e = .ok r') :
    Built regexNew regexes (es ++ [e]) r' ∧ r'.default = r.default := by
  obtain ⟨hexact, hwildcard, hsuffix, hregex⟩ := h
  have hfilter : ∀ route, entryRegex regexNew regexes e = route →
      (es ++ [e]).filterMap (entryRegex regexNew regexes) = r.regex ++ route.toList := by
    rintro route rfl
    rw [List.filterMap_append, hregex]
    cases hentry : entryRegex regexNew regexes e <;> simp [hentry]
  rw [addPattern] at hadd
  cases hpat : Pattern.of e.1 with
  | empty =>
    simp only [hpat] at hadd
    obtain rfl := Except.ok.inj hadd
    refine ⟨⟨lookup_of_other (by simp [hpat]) hexact, lookup_of_other (by simp [hpat]) hwildcard,
      lookup_of_other (by simp [hpat]) hsuffix, ?_⟩, rfl⟩
    rw [hfilter none (by rw [entryRegex, hpat]), Option.toList_none, List.append_nil]
  | regexRef name =>
    simp only [hpat] at hadd
    obtain ⟨route, hroute, hm⟩ := bind_eq_ok.mp hadd
    obtain rfl := Except.ok.inj hm
    refine ⟨⟨lookup_of_other (by simp [hpat]) hexact, lookup_of_other (by simp [hpat]) hwildcard,
      lookup_of_other (by simp [hpat]) hsuffix, ?_⟩, rfl⟩
    rw [hfilter (some route) (by rw [entryRegex, hpat]; simp [hroute, Except.toOption])]
    rfl
  | inlineRegex =>
    simp only [hpat] at hadd
    exact absurd hadd (by simp [refuse])
  | wildcard parent =>
    simp only [hpat] at hadd
    obtain ⟨m, hins, hm⟩ := bind_eq_ok.mp hadd
    obtain rfl := Except.ok.inj hm
    refine ⟨⟨lookup_of_other (by simp [hpat]) hexact,
      lookup_insertUnique (by simp) hpat hins hwildcard,
      lookup_of_other (by simp [hpat]) hsuffix, ?_⟩, rfl⟩
    rw [hfilter none (by rw [entryRegex, hpat]), Option.toList_none, List.append_nil]
  | suffix domain =>
    simp only [hpat] at hadd
    obtain ⟨m, hins, hm⟩ := bind_eq_ok.mp hadd
    obtain rfl := Except.ok.inj hm
    refine ⟨⟨lookup_of_other (by simp [hpat]) hexact, lookup_of_other (by simp [hpat]) hwildcard,
      lookup_insertUnique (by simp) hpat hins hsuffix, ?_⟩, rfl⟩
    rw [hfilter none (by rw [entryRegex, hpat]), Option.toList_none, List.append_nil]
  | exact host =>
    simp only [hpat] at hadd
    obtain ⟨m, hins, hm⟩ := bind_eq_ok.mp hadd
    obtain rfl := Except.ok.inj hm
    refine ⟨⟨lookup_insertUnique (by simp) hpat hins hexact,
      lookup_of_other (by simp [hpat]) hwildcard, lookup_of_other (by simp [hpat]) hsuffix, ?_⟩,
      rfl⟩
    rw [hfilter none (by rw [entryRegex, hpat]), Option.toList_none, List.append_nil]

/-- **What `build` builds.** -/
theorem built_of_build {patterns : List (List Str)} {default : Option RouteId}
    (h : build regexNew patterns default regexes = .ok r) :
    Built regexNew regexes (entries patterns) r ∧ r.default = default := by
  have hfold : ∀ (rest done : List (Str × RouteId)) (s : Router),
      Built regexNew regexes done s → s.default = default →
      rest.foldlM (addPattern regexNew regexes) s = .ok r →
      Built regexNew regexes (done ++ rest) r ∧ r.default = default := by
    intro rest
    induction rest with
    | nil =>
      intro done s hs hd hrun
      obtain rfl := Except.ok.inj hrun
      rw [List.append_nil]
      exact ⟨hs, hd⟩
    | cons e rest ih =>
      intro done s hs hd hrun
      rw [List.foldlM_cons] at hrun
      obtain ⟨s', hadd, hrun⟩ := bind_eq_ok.mp hrun
      obtain ⟨hs', hd'⟩ := built_addPattern hs hadd
      have hrest := ih (done ++ [e]) s' hs' (hd'.trans hd) hrun
      rwa [List.append_assoc, List.singleton_append] at hrest
  refine hfold (entries patterns) [] _ ⟨?_, ?_, ?_, rfl⟩ rfl h <;>
    exact fun k id ↦ ⟨fun h ↦ absurd h (by simp), fun ⟨_, h, _⟩ ↦ absurd h (by simp)⟩

end Build

/-! ## Routers that agree -/

/-- Two regex routes that no host and no wildcard tells apart. -/
structure Alike (route route' : RegexRoute) : Prop where
  pattern : route.pattern = route'.pattern
  routeId : route.routeId = route'.routeId
  scope : ∀ parent, (route.scopeSuffix.any fun s ↦ matchScopePattern s parent) =
    route'.scopeSuffix.any fun s ↦ matchScopePattern s parent

/-- Two routers with the same maps and the same default, and the same regex routes up to order among
those of one route. -/
structure SameTable (r r' : Router) : Prop where
  exact : ∀ k, r.exact.lookup k = r'.exact.lookup k
  wildcard : ∀ k, r.wildcard.lookup k = r'.wildcard.lookup k
  suffix : ∀ k, r.suffix.lookup k = r'.suffix.lookup k
  default : r.default = r'.default
  regex : ∀ route ∈ r.regex, ∃ route' ∈ r'.regex, Alike route route'
  regex' : ∀ route' ∈ r'.regex, ∃ route ∈ r.regex, Alike route route'
  ordered : (r.regex.map RegexRoute.routeId).Pairwise (· ≤ ·)
  ordered' : (r'.regex.map RegexRoute.routeId).Pairwise (· ≤ ·)

section Same

variable {r r' : Router} {inScope : RouteId → Bool} {parent : Str}

theorem mem_keys_iff {m : Map Str RouteId} {key : Str} :
    key ∈ m.keys ↔ ∃ id, m.lookup key = some id := by
  rw [← AList.mem_keys, ← AList.lookup_isSome, Option.isSome_iff_exists]

theorem mem_keys_iff_of_lookup {m m' : Map Str RouteId} (h : ∀ k, m.lookup k = m'.lookup k)
    {k : Str} : k ∈ m.keys ↔ k ∈ m'.keys := by
  rw [mem_keys_iff, mem_keys_iff, h]

/-- The first element of an ordered list that satisfies a predicate is a least one. -/
theorem find?_map_eq_some_iff {α : Type} {xs : List α} {p : α → Bool} {f : α → ℕ} {i : ℕ}
    (h : (xs.map f).Pairwise (· ≤ ·)) :
    (xs.find? p).map f = some i ↔
      (∃ a ∈ xs, p a ∧ f a = i) ∧ ∀ b ∈ xs, p b → i ≤ f b := by
  induction xs with
  | nil => simp
  | cons x xs ih =>
    rw [List.map_cons, List.pairwise_cons] at h
    obtain ⟨hx, h⟩ := h
    by_cases hp : p x
    · rw [List.find?_cons_of_pos hp, Option.map_some, Option.some_inj]
      constructor
      · rintro rfl
        refine ⟨⟨x, List.mem_cons_self, hp, rfl⟩, fun b hb _ ↦ ?_⟩
        rcases List.mem_cons.mp hb with rfl | hb
        · exact le_rfl
        · exact hx _ (List.mem_map_of_mem hb)
      · rintro ⟨⟨a, ha, -, rfl⟩, hleast⟩
        refine le_antisymm ?_ (hleast x List.mem_cons_self hp)
        rcases List.mem_cons.mp ha with rfl | ha
        · exact le_rfl
        · exact hx _ (List.mem_map_of_mem ha)
    · rw [List.find?_cons_of_neg hp, ih h]
      simp only [List.mem_cons, exists_eq_or_imp, forall_eq_or_imp, hp, false_and, false_or,
        false_imp_iff, true_and, Bool.false_eq_true]

theorem SameTable.symm (h : SameTable r r') : SameTable r' r where
  exact k := (h.exact k).symm
  wildcard k := (h.wildcard k).symm
  suffix k := (h.suffix k).symm
  default := h.default.symm
  regex route' hroute' := by
    obtain ⟨route, hroute, hp, hi, hs⟩ := h.regex' route' hroute'
    exact ⟨route, hroute, hp.symm, hi.symm, fun parent ↦ (hs parent).symm⟩
  regex' route hroute := by
    obtain ⟨route', hroute', hp, hi, hs⟩ := h.regex route hroute
    exact ⟨route', hroute', hp.symm, hi.symm, fun parent ↦ (hs parent).symm⟩
  ordered := h.ordered'
  ordered' := h.ordered

theorem SameTable.suffixWalk (h : SameTable r r') (name : Str) :
    r.suffixWalk name = r'.suffixWalk name := by
  rw [Router.suffixWalk, Router.suffixWalk, funext h.suffix]

theorem SameTable.regexTier (h : SameTable r r') (host : Str) :
    r.regexTier host = r'.regexTier host := by
  have hmono : ∀ {s s' : Router}, SameTable s s' → ∀ i, s.regexTier host = some i →
      s'.regexTier host = some i := by
    intro s s' hs i hi
    rw [Router.regexTier, find?_map_eq_some_iff hs.ordered] at hi
    rw [Router.regexTier, find?_map_eq_some_iff hs.ordered']
    obtain ⟨⟨route, hroute, hmatch, rfl⟩, hleast⟩ := hi
    obtain ⟨route', hroute', halike⟩ := hs.regex route hroute
    refine ⟨⟨route', hroute', halike.pattern ▸ hmatch, halike.routeId.symm⟩, fun b hb hbmatch ↦ ?_⟩
    obtain ⟨a, ha, halike'⟩ := hs.regex' b hb
    rw [← halike'.routeId]
    exact hleast a ha (halike'.pattern ▸ hbmatch)
  exact Option.ext fun i ↦ ⟨hmono h i, hmono h.symm i⟩

/-- **Resolution.** Routers that agree resolve every host alike. -/
theorem SameTable.matchHost (h : SameTable r r') (host : Str) :
    r.matchHost host = r'.matchHost host := by
  simp only [Router.matchHost, h.exact, h.wildcard, h.suffixWalk, h.regexTier, h.default]

theorem SameTable.hostEscape (h : SameTable r r') :
    r.hostEscape inScope = r'.hostEscape inScope := by
  funext host
  rw [Router.hostEscape, Router.hostEscape, h.matchHost]

theorem SameTable.mem_named (h : SameTable r r') {k : Str} :
    k ∈ r.named parent ↔ k ∈ r'.named parent := by
  simp only [named, List.mem_insertionSort, List.mem_filter, List.mem_append,
    mem_keys_iff_of_lookup h.exact, mem_keys_iff_of_lookup h.suffix]

theorem SameTable.fallthroughConfined (h : SameTable r r') :
    (r.fallthroughConfined parent inScope).isOk = (r'.fallthroughConfined parent inScope).isOk := by
  have hfind : ∀ {s s' : Router}, SameTable s s' →
      (s.regex.find? fun route ↦ !inScope route.routeId ∧
        route.scopeSuffix.any fun scope ↦ matchScopePattern scope parent) = none →
      (s'.regex.find? fun route ↦ !inScope route.routeId ∧
        route.scopeSuffix.any fun scope ↦ matchScopePattern scope parent) = none := by
    intro s s' hs hnone
    rw [List.find?_eq_none] at hnone ⊢
    intro route' hroute'
    obtain ⟨route, hroute, -, hid, hscope⟩ := hs.regex' route' hroute'
    rw [← hid, ← hscope]
    exact hnone route hroute
  rw [Router.fallthroughConfined, Router.fallthroughConfined, ← h.default]
  cases r.default with
  | none => rfl
  | some id =>
    by_cases hid : inScope id
    swap
    · simp [hid, Except.isOk, Except.toBool]
    simp only [hid, Bool.not_true, Bool.false_eq_true, if_false]
    cases hs : r.regex.find? _ with
    | none => rw [hfind h hs]
    | some route =>
      cases hs' : r'.regex.find? _ with
      | none => exact absurd (hs.symm.trans (hfind h.symm hs')) (by simp)
      | some route' => rfl

theorem SameTable.genericVerdict (h : SameTable r r') :
    (r.genericVerdict parent inScope).isOk = (r'.genericVerdict parent inScope).isOk := by
  rw [Router.genericVerdict, Router.genericVerdict, ← h.wildcard]
  simp only [← h.suffix]
  cases r.wildcard.lookup parent with
  | some id => rfl
  | none =>
    cases (ancestors parent).findSome? _ with
    | some p => rfl
    | none => exact h.fallthroughConfined

/-- **Confinement.** Routers that agree give every wildcard the same verdict. -/
theorem SameTable.wildcardConfined (h : SameTable r r') (parent : Str)
    (inScope : RouteId → Bool) :
    (r.wildcardConfined parent inScope).isOk = (r'.wildcardConfined parent inScope).isOk := by
  have hnone : ∀ {s s' : Router}, SameTable s s' →
      (s.named (normalize parent)).findSome? (s.hostEscape inScope) = none →
      (s'.named (normalize parent)).findSome? (s'.hostEscape inScope) = none := by
    intro s s' hs hnone
    rw [List.findSome?_eq_none_iff] at hnone ⊢
    intro k hk
    rw [← hs.hostEscape]
    exact hnone k (hs.mem_named.mpr hk)
  rw [Router.wildcardConfined, Router.wildcardConfined]
  cases hs : (r.named (normalize parent)).findSome? (r.hostEscape inScope) with
  | none =>
    rw [hnone h hs]
    exact h.genericVerdict
  | some escape =>
    cases hs' : (r'.named (normalize parent)).findSome? (r'.hostEscape inScope) with
    | none => exact absurd (hs.symm.trans (hnone h.symm hs')) (by simp)
    | some escape' => rfl

end Same

end Router

end SniGate
