import SniGate.Config.Validate
import SniGate.Router.Wildcards
import SniGate.Text.Pieces

/-!
# Declared scopes are sets of hosts

A regular expression declares the hosts it may match: one label above a domain, a domain with
everything below it, or a single domain. The router asks of a declared scope whether it has a host
in common with a wildcard. `matchScopePattern` answers by suffix tests; for scopes that validation
lets pass the answer is right (`matchScopePattern_iff`), and when there is a common host, there is
one that a connection can have.
-/

namespace SniGate

/-! ## Sets -/

/-- The hosts that a scope declares, as it is written. -/
def ScopeDeclares (scope host : Str) : Prop :=
  match stripStart "*.".toList (trim scope) with
  | some d => ∃ l, l ≠ [] ∧ '.' ∉ l ∧ host = l ++ '.' :: asciiLowercase d
  | none =>
    match stripStart ['.'] (trim scope) with
    | some d => host = asciiLowercase d ∨ ∃ x, x ≠ [] ∧ host = x ++ '.' :: asciiLowercase d
    | none => host = asciiLowercase (trim scope)

/-! ## Valid scopes -/

section Valid

variable {name scope domain parent host d : Str} {c : Char}

/-- What validation says about the domain part. -/
structure IsScopeDomain (domain : Str) : Prop where
  isHostName : IsHostName domain
  head : domain.head? ≠ some '.'
  last : domain.getLast? ≠ some '.'

theorem validateScopeLabel_eq_ok {label : Str} (h : validateScopeLabel name scope label = .ok ()) :
    label ≠ [] ∧ ∀ c ∈ label, isAsciiAlphanumeric c ∨ c = '-' := by
  rw [validateScopeLabel] at h
  split_ifs at h with hempty hhyphen hchars
  · exact absurd h nofun
  · exact absurd h nofun
  · exact absurd h nofun
  · rw [Bool.not_eq_true, Bool.not_eq_false'] at hchars
    exact ⟨hempty, fun c hc ↦ of_decide_eq_true (List.all_eq_true.mp hchars c hc)⟩

/-- **Valid scopes** have a domain part without odd characters and without a dot at either end. -/
theorem isScopeDomain_of_valid (h : validateScopePattern name scope = .ok ()) :
    IsScopeDomain (scopeDomain (trim scope)) := by
  rw [validateScopePattern] at h
  obtain ⟨_, -, h⟩ := bind_eq_ok.mp h
  obtain ⟨_, -, h⟩ := bind_eq_ok.mp h
  obtain ⟨_, -, h⟩ := bind_eq_ok.mp h
  have hlabels : ∀ label ∈ (scopeDomain (trim scope)).splitOn '.',
      label ≠ [] ∧ ∀ c ∈ label, isAsciiAlphanumeric c ∨ c = '-' := fun label hlabel ↦
    validateScopeLabel_eq_ok (forM_eq_ok.mp h label hlabel)
  refine ⟨fun c hc ↦ ?_, fun hhead ↦ ?_, fun hlast ↦ ?_⟩
  · rw [isHostChar, Bool.or_eq_true, Bool.or_eq_true, Bool.or_eq_true]
    rcases eq_or_mem_of_splitOn '.' hc with hdot | ⟨label, hlabel, hc⟩
    · exact .inr (decide_eq_true hdot)
    · rcases (hlabels label hlabel).2 c hc with halpha | hhyphen
      · exact .inl (.inl (.inl halpha))
      · exact .inl (.inl (.inr (decide_eq_true hhyphen)))
  · -- a dot at the start leaves an empty label before it
    obtain ⟨rest, hrest⟩ := List.head?_eq_some_iff.mp hhead
    have hmem : [] ∈ (scopeDomain (trim scope)).splitOn '.' := by
      rw [hrest, ← List.nil_append ('.' :: rest), List.splitOn_append_cons_self]
      exact List.mem_append_left _ (List.mem_singleton_self _)
    exact (hlabels [] hmem).1 rfl
  · obtain ⟨rest, hrest⟩ := List.getLast?_eq_some_iff.mp hlast
    have hmem : [] ∈ (scopeDomain (trim scope)).splitOn '.' := by
      rw [hrest, List.splitOn_append_cons_self]
      exact List.mem_append_right _ (List.mem_singleton_self _)
    exact (hlabels [] hmem).1 rfl

theorem IsScopeDomain.normalize (h : IsScopeDomain domain) :
    Router.normalize domain = asciiLowercase domain := by
  rw [Router.normalize_of_isHostName h.isHostName,
    trimEndMatches_eq_self_iff.mpr h.last]

/-- What the declared scope of a valid text is. -/
inductive NormalScope (scope : Str) : Str → Prop
  | wildcard {d : Str} (written : stripStart "*.".toList (trim scope) = some d) :
    NormalScope scope ("*.".toList ++ asciiLowercase d)
  | suffix {d : Str} (written : stripStart "*.".toList (trim scope) = none)
    (written' : stripStart ['.'] (trim scope) = some d) :
    NormalScope scope ('.' :: asciiLowercase d)
  | exact (written : stripStart "*.".toList (trim scope) = none)
    (written' : stripStart ['.'] (trim scope) = none)
    (notWildcard : stripStart "*.".toList (asciiLowercase (trim scope)) = none)
    (notSuffix : stripStart ['.'] (asciiLowercase (trim scope)) = none) :
    NormalScope scope (asciiLowercase (trim scope))

theorem normalScope_of_valid (h : validateScopePattern name scope = .ok ()) :
    NormalScope scope (Router.normalizeScopeSuffix scope) := by
  have hdomain := isScopeDomain_of_valid h
  have hnorm := hdomain.normalize
  rw [Router.normalizeScopeSuffix]
  cases hwildcard : stripStart "*.".toList (trim scope) with
  | some d =>
    rw [scopeDomain, hwildcard] at hnorm
    dsimp only at hnorm ⊢
    rw [hnorm]
    exact .wildcard hwildcard
  | none =>
    cases hsuffix : stripStart ['.'] (trim scope) with
    | some d =>
      rw [scopeDomain, hwildcard, hsuffix] at hnorm
      dsimp only [Option.getD_some] at hnorm ⊢
      rw [hnorm]
      exact .suffix hwildcard hsuffix
    | none =>
      rw [scopeDomain, hwildcard, hsuffix] at hnorm hdomain
      dsimp only [Option.getD_none] at hnorm hdomain ⊢
      rw [hnorm]
      refine .exact hwildcard hsuffix ?_ ?_
      all_goals
        rw [Option.eq_none_iff_forall_ne_some]
        intro rest hrest
        have heq := stripStart_eq_some.mp hrest
      · -- an asterisk is no character of a host name
        have hstar : '*' ∈ asciiLowercase (trim scope) := heq ▸ List.mem_cons_self
        exact absurd (isHostName_asciiLowercase hdomain.isHostName _ hstar) (by decide)
      · have hdot : (asciiLowercase (trim scope)).head? = some '.' := by rw [← heq]; rfl
        rw [asciiLowercase, List.head?_map, Option.map_eq_some_iff] at hdot
        obtain ⟨c, hc, hlower⟩ := hdot
        rw [toLower_eq_dot.mp hlower] at hc
        exact hdomain.head hc

/-! ## Intersection -/

theorem WildcardCovers.iff_oneLabelAbove :
    WildcardCovers parent host ↔ (Router.oneLabelAbove host parent).isSome := by
  constructor
  · rintro ⟨l, hl, hdot, rfl⟩
    rw [Router.oneLabelAbove_append hl hdot]
    rfl
  · intro h
    obtain ⟨l, hl⟩ := Option.isSome_iff_exists.mp h
    obtain ⟨heq, hne, hdot⟩ := Router.oneLabelAbove_eq_some hl
    exact ⟨l, hne, hdot, heq⟩

/-- What is found to overlap has a common host: the label `[` above the parent, or the domain of the
scope. -/
theorem exists_of_matchScopePattern (h : validateScopePattern name scope = .ok ())
    (hmatch : Router.matchScopePattern (Router.normalizeScopeSuffix scope) parent) :
    ∃ host, WildcardCovers parent host ∧ ScopeDeclares scope host ∧
      (host = "[".toList ++ '.' :: parent ∨
        host = Router.normalize (scopeDomain (trim scope))) := by
  have hlabel : WildcardCovers parent ("[".toList ++ '.' :: parent) :=
    ⟨_, by decide, by decide, rfl⟩
  have hnormal := normalScope_of_valid h
  rw [(isScopeDomain_of_valid h).normalize, scopeDomain]
  simp only [ScopeDeclares]
  rw [Router.matchScopePattern] at hmatch
  generalize Router.normalizeScopeSuffix scope = s at hmatch hnormal
  cases hnormal with
  | @wildcard d written =>
    rw [stripStart_eq_some.mpr (rfl : "*.".toList ++ asciiLowercase d = _)] at hmatch
    obtain rfl := of_decide_eq_true hmatch
    rw [written]
    exact ⟨_, hlabel, ⟨_, by decide, by decide, rfl⟩, .inl rfl⟩
  | @suffix d written written' =>
    have hstrip : stripStart "*.".toList ('.' :: asciiLowercase d) = none := rfl
    have hstrip' : stripStart ['.'] ('.' :: asciiLowercase d) = some (asciiLowercase d) :=
      stripStart_eq_some.mpr rfl
    rw [hstrip, hstrip'] at hmatch
    rw [written, written']
    rcases of_decide_eq_true hmatch with hbelow | habove
    · refine ⟨_, hlabel, .inr ?_, .inl rfl⟩
      rcases of_decide_eq_true hbelow with rfl | hbelow
      · exact ⟨_, by decide, rfl⟩
      · obtain ⟨x, rfl⟩ := hbelow
        exact ⟨"[".toList ++ '.' :: x, by simp, by simp⟩
    · exact ⟨_, WildcardCovers.iff_oneLabelAbove.mpr habove, .inl rfl, .inr rfl⟩
  | exact written written' notWildcard notSuffix =>
    rw [notWildcard, notSuffix] at hmatch
    rw [written, written']
    exact ⟨_, WildcardCovers.iff_oneLabelAbove.mpr hmatch, rfl, .inr rfl⟩

/-- The hosts that a valid scope declares are those that its normal form covers. -/
theorem scopeCovers_of_scopeDeclares (h : validateScopePattern name scope = .ok ())
    (hdeclares : ScopeDeclares scope host) :
    Router.scopeCovers (Router.normalizeScopeSuffix scope) host := by
  have hnormal := normalScope_of_valid h
  rw [ScopeDeclares] at hdeclares
  rw [Router.scopeCovers]
  generalize Router.normalizeScopeSuffix scope = s at hnormal
  cases hnormal with
  | @wildcard d written =>
    rw [written] at hdeclares
    rw [stripStart_eq_some.mpr (rfl : "*.".toList ++ asciiLowercase d = _)]
    obtain ⟨l, -, hdot, hhost⟩ := hdeclares
    exact ⟨l, hdot, hhost⟩
  | @suffix d written written' =>
    have hstrip : stripStart "*.".toList ('.' :: asciiLowercase d) = none := rfl
    have hstrip' : stripStart ['.'] ('.' :: asciiLowercase d) = some (asciiLowercase d) :=
      stripStart_eq_some.mpr rfl
    rw [written, written'] at hdeclares
    rw [hstrip, hstrip']
    rcases hdeclares with rfl | ⟨x, -, rfl⟩
    · exact .inl rfl
    · exact .inr (List.suffix_append _ _)
  | exact written written' notWildcard notSuffix =>
    rw [written, written'] at hdeclares
    rw [notWildcard, notSuffix]
    exact hdeclares

/-- **Intersection.** A declared scope that validation lets pass is found to overlap with a wildcard
exactly when some host is in both; and if the parent is its own normal form, some host that is its
own normal form. -/
theorem matchScopePattern_iff (h : validateScopePattern name scope = .ok ()) (parent : Str) :
    (Router.matchScopePattern (Router.normalizeScopeSuffix scope) parent ↔
      ∃ host, WildcardCovers parent host ∧ ScopeDeclares scope host) ∧
    (Router.normalize parent = parent → parent ≠ [] →
      Router.matchScopePattern (Router.normalizeScopeSuffix scope) parent →
      ∃ host, Router.normalize host = host ∧ WildcardCovers parent host ∧
        ScopeDeclares scope host) := by
  refine ⟨⟨fun hmatch ↦ ?_, fun ⟨host, hcovers, hdeclares⟩ ↦ ?_⟩, fun hparent hne hmatch ↦ ?_⟩
  · obtain ⟨host, hcovers, hdeclares, -⟩ := exists_of_matchScopePattern h hmatch
    exact ⟨host, hcovers, hdeclares⟩
  · obtain ⟨l, hl, hdot, rfl⟩ := hcovers
    exact Router.matchScopePattern_of_covers hl hdot (scopeCovers_of_scopeDeclares h hdeclares)
  · obtain ⟨host, hcovers, hdeclares, rfl | rfl⟩ := exists_of_matchScopePattern h hmatch
    · refine ⟨_, ?_, hcovers, hdeclares⟩
      exact Router.normalize_below_of_head hparent hne (by decide)
        (fun c hc ↦ by rw [← Option.some.inj hc]; decide) (.inl rfl) rfl
    · exact ⟨_, Router.normalize_normalize (isScopeDomain_of_valid h).isHostName, hcovers,
        hdeclares⟩

end Valid

/-- The scope `.B.test` has hosts in common with `*.c.b.test`, and `a.c.b.test` has none in common
with `*.b.test`. -/
theorem matchScopePattern_below_b :
    (∃ host, WildcardCovers "c.b.test".toList host ∧ ScopeDeclares ".B.test".toList host) ∧
      ¬∃ host, WildcardCovers "b.test".toList host ∧
        ScopeDeclares "a.c.b.test".toList host := by
  constructor
  · exact (matchScopePattern_iff
      (by decide +kernel : validateScopePattern [] ".B.test".toList = .ok ()) _).1.mp
        (by decide +kernel)
  · rw [← (matchScopePattern_iff
      (by decide +kernel : validateScopePattern [] "a.c.b.test".toList = .ok ()) _).1]
    decide +kernel

end SniGate
