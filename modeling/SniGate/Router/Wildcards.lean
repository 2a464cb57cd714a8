import SniGate.Router.NormalForm
import SniGate.Router.Table

/-!
# Wildcard confinement is exact

`wildcardConfined` looks at finitely many keys and one generic verdict. For a router without regular
expressions it accepts exactly when every host one label below the parent routes into the set
(`wildcardConfined_eq_ok_iff`): a named host is its own normal form and is resolved by the matcher
itself, and what the generic verdict says is what the matcher does with a label that no key has.
With regular expressions that keep to their declared suffixes, acceptance still implies this.
-/

namespace SniGate

/-- The hosts that the wildcard `*.parent` covers. -/
def WildcardCovers (parent host : Str) : Prop := ∃ l, l ≠ [] ∧ '.' ∉ l ∧ host = l ++ '.' :: parent

namespace Router

/-! ## What is decided -/

/-- Every host one label below `parent` that is its own normal form routes into the set. -/
def RoutesInto (r : Router) (parent : Str) (inScope : RouteId → Bool) : Prop :=
  ∀ l, l ≠ [] → '.' ∉ l → normalize (l ++ '.' :: parent) = l ++ '.' :: parent →
    ∃ id, r.matchHost (l ++ '.' :: parent) = some id ∧ inScope id

section Built

variable {regexNew : RegexNew} {regexes : Map Str RegexDef} {es : List (Str × RouteId)}
  {r : Router} {pat key l parent host : Str} {id : RouteId} {inScope : RouteId → Bool}

/-! ## Keys -/

theorem exists_eq_normalize_of_pattern
    (h : Pattern.of pat = .exact key ∨ Pattern.of pat = .wildcard key ∨
      Pattern.of pat = .suffix key) : ∃ t, key = normalize t := by
  rw [Pattern.of] at h
  split_ifs at h with hempty hinline
  · simp at h
  · cases hregex : stripStart ['@'] (trim pat) <;> simp [hregex] at h
  cases hregex : stripStart ['@'] (trim pat) with
  | some name => simp [hregex] at h
  | none =>
    rw [hregex] at h
    cases hwildcard : stripStart "*.".toList (trim pat) with
    | some rest =>
      rw [hwildcard] at h
      exact ⟨rest, by simpa [eq_comm] using h⟩
    | none =>
      rw [hwildcard] at h
      cases hsuffix : stripStart ['.'] (trim pat) with
      | some rest =>
        rw [hsuffix] at h
        exact ⟨rest, by simpa [eq_comm] using h⟩
      | none =>
        rw [hsuffix] at h
        exact ⟨trim pat, by simpa [eq_comm] using h⟩

theorem Built.exists_eq_normalize (h : Built regexNew regexes es r)
    (hkey : key ∈ r.exact.keys ∨ key ∈ r.suffix.keys) : ∃ t, key = normalize t := by
  rcases hkey with hkey | hkey
  · obtain ⟨id, hid⟩ := mem_keys_iff.mp hkey
    obtain ⟨e, -, hpat, -⟩ := (h.exact key id).mp hid
    exact exists_eq_normalize_of_pattern (.inl hpat)
  · obtain ⟨id, hid⟩ := mem_keys_iff.mp hkey
    obtain ⟨e, -, hpat, -⟩ := (h.suffix key id).mp hid
    exact exists_eq_normalize_of_pattern (.inr (.inr hpat))

theorem exists_label_notMem (keys : List Str) (parent : Str) :
    ∃ l : Str, l.head? = some '[' ∧ '.' ∉ l ∧ asciiLowercase l = l ∧
      l ++ '.' :: parent ∉ keys := by
  let n := (keys.map List.length).sum
  refine ⟨'[' :: List.replicate n 'a', rfl, ?_, ?_, fun hmem ↦ ?_⟩
  · simp
  · rw [asciiLowercase, List.map_cons, List.map_replicate]
    rfl
  · -- it is longer than any key
    have hlen := List.le_sum_of_mem (List.mem_map_of_mem (f := List.length) hmem)
    simp only [List.length_append, List.length_cons, List.length_replicate] at hlen
    omega

theorem oneLabelAbove_eq_some (h : oneLabelAbove key parent = some l) :
    key = l ++ '.' :: parent ∧ l ≠ [] ∧ '.' ∉ l := by
  rw [oneLabelAbove] at h
  cases hleft : (stripEnd parent key).bind (stripEnd ['.']) with
  | none => simp [hleft] at h
  | some left =>
    rw [hleft] at h
    dsimp only at h
    split_ifs at h with hbad
    obtain rfl := Option.some.inj h
    rw [not_or] at hbad
    obtain ⟨start, hparent, hdot⟩ := Option.bind_eq_some_iff.mp hleft
    refine ⟨?_, hbad⟩
    rw [← stripEnd_eq_some.mp hparent, ← stripEnd_eq_some.mp hdot, List.append_assoc]
    rfl

/-! ## The generic verdict -/

/-- A host below the parent that no key names is routed as the generic verdict says. -/
theorem genericVerdict_of_matchHost (hregex : r.regex = []) (hdot : '.' ∉ l)
    (hnorm : normalize (l ++ '.' :: parent) = l ++ '.' :: parent)
    (hexact : l ++ '.' :: parent ∉ r.exact.keys) (hsuffix : l ++ '.' :: parent ∉ r.suffix.keys)
    (hmatch : r.matchHost (l ++ '.' :: parent) = some id) (hid : inScope id) :
    r.genericVerdict parent inScope = .ok () := by
  rw [matchHost_below_unnamed hdot hnorm hexact hsuffix] at hmatch
  rw [genericVerdict]
  cases hwildcard : r.wildcard.lookup parent with
  | some id' =>
    rw [hwildcard] at hmatch
    obtain rfl := Option.some.inj hmatch
    exact if_pos hid
  | none =>
    rw [hwildcard, Option.none_or] at hmatch
    dsimp only
    cases hpair : (ancestors parent).findSome? fun cur ↦
        (r.suffix.lookup cur).map fun id ↦ (cur, id) with
    | some p =>
      rw [hpair] at hmatch
      obtain rfl := Option.some.inj hmatch
      exact if_pos hid
    | none =>
      have hdefault : r.default = some id := by
        simpa [hpair, regexTier, hregex] using hmatch
      rw [fallthroughConfined, hdefault, hregex]
      simp [hid]

/-! ## The decision -/

theorem routesInto_of_wildcardConfined (hconfined : r.RegexConfined)
    (hparent : normalize parent = parent) (h : r.wildcardConfined parent inScope = .ok ()) :
    r.RoutesInto parent inScope := by
  intro l hl hdot hnorm
  rw [wildcardConfined, hparent] at h
  cases hnamed : (r.named parent).findSome? (r.hostEscape inScope) with
  | some escape => simp [hnamed] at h
  | none =>
    rw [hnamed] at h
    exact matchHost_below hconfined hl hdot hnorm hnamed h

/-- Where every host below the parent goes into the set, nothing escapes. -/
theorem wildcardConfined_of_routesInto (hbuilt : Built regexNew regexes es r)
    (hregex : r.regex = []) (hparent : normalize parent = parent) (hne : parent ≠ [])
    (h : r.RoutesInto parent inScope) : r.wildcardConfined parent inScope = .ok () := by
  have hnamed : (r.named parent).findSome? (r.hostEscape inScope) = none := by
    rw [List.findSome?_eq_none_iff]
    intro key hkey
    rw [named, List.mem_insertionSort, List.mem_filter, List.mem_append] at hkey
    obtain ⟨hkey, habove⟩ := hkey
    obtain ⟨l, hl⟩ := Option.isSome_iff_exists.mp habove
    obtain ⟨rfl, hne', hdot⟩ := oneLabelAbove_eq_some hl
    obtain ⟨t, ht⟩ := hbuilt.exists_eq_normalize hkey
    obtain ⟨id, hmatch, hid⟩ :=
      h l hne' hdot (normalize_below_of_eq_normalize hparent hne hne' ht)
    rw [hostEscape, hmatch]
    exact if_pos hid
  obtain ⟨l, hbracket, hdot, hlower, hfresh⟩ :=
    exists_label_notMem (r.exact.keys ++ r.suffix.keys) parent
  rw [List.mem_append, not_or] at hfresh
  have hl : l ≠ [] := fun h0 ↦ by rw [h0] at hbracket; exact absurd hbracket (by simp)
  have hnorm : normalize (l ++ '.' :: parent) = l ++ '.' :: parent := by
    refine normalize_below_of_head hparent hne hl (fun c hc ↦ ?_) (.inl hbracket) hlower
    rw [hbracket] at hc
    rw [← Option.some.inj hc]
    decide
  obtain ⟨id, hmatch, hid⟩ := h l hl hdot hnorm
  rw [wildcardConfined, hparent, hnamed]
  exact genericVerdict_of_matchHost hregex hdot hnorm hfresh.1 hfresh.2 hmatch hid

end Built

/-- **An infinite question, decided.** A built router without regular expressions accepts a wildcard
exactly when every host one label below its parent routes into the set; one whose regular
expressions keep to their declared suffixes accepts it only then. -/
theorem wildcardConfined_eq_ok_iff {regexNew : RegexNew} {patterns : List (List Str)}
    {default : Option RouteId} {regexes : Map Str RegexDef} {r : Router} {parent : Str}
    (hbuild : build regexNew patterns default regexes = .ok r) (hparent : normalize parent = parent)
    (hne : parent ≠ []) (inScope : RouteId → Bool) :
    (r.regex = [] →
      (r.wildcardConfined parent inScope = .ok () ↔ r.RoutesInto parent inScope)) ∧
    (r.RegexConfined →
      r.wildcardConfined parent inScope = .ok () → r.RoutesInto parent inScope) := by
  refine ⟨fun hregex ↦ ⟨fun h ↦ ?_, fun h ↦ ?_⟩, fun hconfined h ↦ ?_⟩
  · have hconfined : r.RegexConfined := fun route hroute ↦ by
      rw [hregex] at hroute
      exact absurd hroute List.not_mem_nil
    exact routesInto_of_wildcardConfined hconfined hparent h
  · exact wildcardConfined_of_routesInto (built_of_build hbuild).1 hregex hparent hne h
  · exact routesInto_of_wildcardConfined hconfined hparent h

/-- A route for `*.a.test` and for one host there, and one for a regular expression that matches
`c.b.test`, if there is one. -/
def wildcardAndHost (regex : List RegexRoute) : Router where
  exact := (∅ : Map Str RouteId).insert "b.a.test".toList 0
  wildcard := (∅ : Map Str RouteId).insert "a.test".toList 0
  suffix := ∅
  regex
  default := none

/-- Every host one label below `a.test` goes to the first route, with and without the second. -/
theorem routesInto_wildcardAndHost :
    (wildcardAndHost []).RoutesInto "a.test".toList (fun id ↦ id = 0) ∧
      (wildcardAndHost [⟨fun host ↦ host = "c.b.test".toList, 1, ["c.b.test".toList]⟩]).RoutesInto
        "a.test".toList (fun id ↦ id = 0) := by
  have hnorm : normalize "a.test".toList = "a.test".toList := by decide +kernel
  constructor
  · have hbuild : build (fun _ ↦ .error []) [["*.a.test".toList, "b.a.test".toList]] none ∅ =
        .ok (wildcardAndHost []) := by rfl
    exact ((wildcardConfined_eq_ok_iff hbuild hnorm (by decide) _).1 rfl).mp (by decide +kernel)
  · have hbuild : build (fun _ ↦ .ok fun host ↦ host = "c.b.test".toList)
        [["*.a.test".toList, "b.a.test".toList], ["@x".toList]] none
        ((∅ : Map Str RegexDef).insert "x".toList ⟨[], ["c.b.test".toList]⟩) =
        .ok (wildcardAndHost [⟨fun host ↦ host = "c.b.test".toList, 1, ["c.b.test".toList]⟩]) := by
      rfl
    refine (wildcardConfined_eq_ok_iff hbuild hnorm (by decide) _).2 ?_ (by decide +kernel)
    intro route hroute host hmatch
    rw [List.mem_singleton.mp hroute] at hmatch ⊢
    have hhost : host = "c.b.test".toList := of_decide_eq_true hmatch
    rw [hhost]
    exact ⟨_, List.mem_singleton_self _, rfl⟩

end Router

end SniGate
