import SniGate.Router.Precedence
import SniGate.Suffix.Rules

/-!
# Wildcards inside one registrable domain

`wildcard_is_mintable` is to ignore the private section. It does not delete its rules: where a
private rule prevails, it looks at the names above the private suffix, the longest first, for one
whose rule is not private. For a name with no private suffix, and for most others, this comes to the
same (`wildcardIsMintable_iff_iff`).

It does not where a private rule takes the place of a registry's. A registry's rule that has as many
labels as the private one, for instance a `*` beside a literal label, is not among those for the
names above, so a wildcard may be minted for a registry's suffix; and below a private rule that has
nothing but private rules above it there is no boundary, and nothing is minted.
-/

namespace SniGate

/-! ## Names above a name -/

section Parents

variable {s t : Str} {k : ℕ}

/-- The names above a name are those with fewer of its labels. -/
theorem mem_parents_iff_labels : t ∈ Router.parents s ↔
    labels t <:+ labels s ∧ (labels t).length < (labels s).length := by
  induction s using pieceInduction (c := '.') with
  | last x hx =>
    have hnil : Router.parents x = [] :=
      List.eq_nil_iff_forall_not_mem.mpr fun t ht ↦
        hx ((Router.mem_parents_iff.mp ht).subset List.mem_cons_self)
    have hpos := List.length_pos_of_ne_nil (labels_ne_nil t)
    rw [hnil, labels_of_notMem hx, List.length_singleton]
    exact ⟨fun h ↦ absurd h List.not_mem_nil, fun h ↦ by omega⟩
  | piece x rest hx ih =>
    rw [Router.parents_append hx, labels_append hx, List.mem_cons, ih, List.suffix_cons_iff,
      List.length_cons]
    constructor
    · rintro (rfl | ⟨hsuffix, hlt⟩)
      · exact ⟨.inr (List.suffix_refl _), Nat.lt_succ_self _⟩
      · exact ⟨.inr hsuffix, by omega⟩
    · rintro ⟨heq | hsuffix, hlt⟩
      · rw [heq, List.length_cons] at hlt
        exact absurd hlt (lt_irrefl _)
      · rcases hsuffix.length_le.eq_or_lt with hlen | hlen
        · exact .inl (labels_injective (hsuffix.eq_of_length hlen))
        · exact .inr ⟨hsuffix, hlen⟩

theorem IsName.of_suffix (h : IsName s) (hsuffix : labels t <:+ labels s) : IsName t :=
  fun hmem ↦ h (hsuffix.subset hmem)

theorem not_isName_cons (t : Str) : ¬IsName ('.' :: t) := by
  rw [IsName, ← List.nil_append ('.' :: t), labels_append List.not_mem_nil, not_not]
  exact List.mem_cons_self

theorem isSome_oneLabelBelow (h : IsName s) (hsuffix : labels t <:+ labels s) :
    (SuffixList.oneLabelBelow s t).isSome ↔ (labels t).length < (labels s).length := by
  rw [SuffixList.oneLabelBelow]
  by_cases hst : s = t
  · rw [if_pos hst, hst]
    simp
  have hlt : (labels t).length < (labels s).length :=
    lt_of_le_of_ne hsuffix.length_le fun hlen ↦
      hst (labels_injective (hsuffix.eq_of_length hlen)).symm
  rw [if_neg hst]
  refine iff_of_true ?_ hlt
  obtain ⟨left, hleft⟩ := Router.mem_parents_iff.mp (mem_parents_iff_labels.mpr ⟨hsuffix, hlt⟩)
  have hend : stripEnd t s = some (left ++ ['.']) := by
    rw [stripEnd_eq_some, ← hleft, List.append_assoc]
    rfl
  have hdot : stripEnd ['.'] (left ++ ['.']) = some left := stripEnd_eq_some.mpr rfl
  -- an empty last label of `left` would be one of the name
  have hlast : left.rtakeWhile (· ≠ '.') ≠ [] := by
    intro hnil
    rcases List.eq_nil_or_concat left with hempty | ⟨front, c, hfront⟩
    · rw [hempty, List.nil_append] at hleft
      exact not_isName_cons t (hleft ▸ h)
    · rw [List.concat_eq_append] at hfront
      rw [hfront, List.rtakeWhile_eq_nil_iff] at hnil
      have hc : c = '.' := by simpa using hnil (by simp)
      rw [hfront, hc, List.append_assoc, List.singleton_append] at hleft
      have hparent := Router.mem_parents_iff.mpr ⟨front, hleft⟩
      exact not_isName_cons t (h.of_suffix (mem_parents_iff_labels.mp hparent).1)
  rw [hend, Option.bind_some, hdot]
  simp only [if_neg hlast, Option.isSome_some]

end Parents

/-! ## The walk over the names above a private suffix -/

/-- The rule for the name is a private one. -/
def SuffixList.IsPrivate (list : SuffixList) (name : Str) : Prop :=
  ∃ suffix, list.suffix name = some (suffix, some .priv)

section Boundary

variable {list : SuffixList} {rules : List SuffixRule} {names : List Str} {host s suffix : Str}
  {type : Option SuffixType}

/-- The walk finds nothing only when it meets private rules all along. -/
theorem boundary_eq_none (hdoc : list.Documented rules) (hnames : ∀ t ∈ names, IsName t) :
    list.boundary names = none ↔ ∀ t ∈ names, list.IsPrivate t := by
  induction names with
  | nil => exact iff_of_true rfl fun t ht ↦ absurd ht List.not_mem_nil
  | cons name names ih =>
    obtain ⟨suffix, type, hsuffix, -, -⟩ := hdoc name (hnames name List.mem_cons_self)
    rw [List.forall_mem_cons, SuffixList.boundary, hsuffix]
    by_cases htype : type = some .priv
    · rw [htype] at hsuffix ⊢
      have hprivate : list.IsPrivate name := ⟨suffix, hsuffix⟩
      simp only [if_true, hprivate, true_and]
      exact ih fun t ht ↦ hnames t (List.mem_cons_of_mem _ ht)
    · have hprivate : ¬list.IsPrivate name := by
        rintro ⟨suffix', hsuffix'⟩
        rw [hsuffix, Option.some_inj, Prod.mk.injEq] at hsuffix'
        exact htype hsuffix'.2
      simp [htype, hprivate]

theorem of_boundary_eq_some (h : list.boundary names = some suffix) :
    ∃ t ∈ names, ∃ type, list.suffix t = some (suffix, type) := by
  induction names with
  | nil => simp [SuffixList.boundary] at h
  | cons name names ih =>
    rw [SuffixList.boundary] at h
    split at h
    · exact absurd h (by simp)
    · rename_i found type hfound
      split_ifs at h with htype
      · obtain ⟨t, ht, hsuffix⟩ := ih h
        exact ⟨t, List.mem_cons_of_mem _ ht, hsuffix⟩
      · exact ⟨name, List.mem_cons_self, type, by rw [hfound, Option.some_inj.mp h]⟩

theorem isName_of_mem_parents (h : IsName s) {t : Str} (ht : t ∈ Router.parents s) : IsName t :=
  h.of_suffix (mem_parents_iff_labels.mp ht).1

theorem isSome_registrableIcann (hdoc : list.Documented rules) (hhost : IsName host)
    (hs : list.suffix host = some (s, type)) (htype : type ≠ some .priv) :
    (list.registrableIcann host).isSome ↔ (labels s).length < (labels host).length := by
  rw [SuffixList.registrableIcann, hs]
  simp only [if_neg htype, Option.bind_some]
  exact isSome_oneLabelBelow hhost (hdoc.of_suffix hhost hs).1

/-- Above a private suffix any name that is not private makes a boundary. -/
theorem isSome_registrableIcann_of_private (hdoc : list.Documented rules) (hhost : IsName host)
    (hs : list.suffix host = some (s, some .priv)) :
    (list.registrableIcann host).isSome ↔ ∃ t ∈ Router.parents s, ¬list.IsPrivate t := by
  have hsuffix := (hdoc.of_suffix hhost hs).1
  have hname := hhost.of_suffix hsuffix
  have hnone := boundary_eq_none hdoc fun t ht ↦ isName_of_mem_parents hname ht
  rw [SuffixList.registrableIcann, hs]
  simp only [if_true]
  cases hfound : list.boundary (Router.parents s) with
  | none =>
    refine iff_of_false (by simp) ?_
    rintro ⟨t, ht, hprivate⟩
    exact hprivate (hnone.mp hfound t ht)
  | some b =>
    obtain ⟨t, ht, type, htb⟩ := of_boundary_eq_some hfound
    obtain ⟨hts, hlt⟩ := mem_parents_iff_labels.mp ht
    have hbt := (hdoc.of_suffix (isName_of_mem_parents hname ht) htb).1
    have hle := hbt.length_le
    have hle' := hsuffix.length_le
    refine iff_of_true ?_ ?_
    · rw [Option.bind_some]
      exact (isSome_oneLabelBelow hhost (hbt.trans (hts.trans hsuffix))).mpr (by omega)
    · by_contra hall
      push Not at hall
      rw [hnone.mpr hall] at hfound
      exact absurd hfound (by simp)

end Boundary

/-! ## What is minted -/

/-- Whether the wildcard below the name stays within one registrable domain, by the rules of the
registries alone. -/
def InsideRegistrable (rules : List SuffixRule) (name : Str) : Prop :=
  publicSuffixLength (icannRules rules) (labels name) < (labels name).length

instance (rules : List SuffixRule) (name : Str) : Decidable (InsideRegistrable rules name) :=
  inferInstanceAs (Decidable (_ < _))

/-- A private rule prevails for a name that the registries give out names below, and a name above
its suffix is not private. -/
def SuffixList.Overridden (list : SuffixList) (rules : List SuffixRule) (name : Str) : Prop :=
  ∃ suffix, list.suffix name = some (suffix, some .priv) ∧ IsRegistrySuffix rules (labels name) ∧
    ∃ t ∈ Router.parents suffix, ¬list.IsPrivate t

/-- A private rule prevails for a longer name that is not one of those, and so it does for every
name above its suffix. -/
def SuffixList.Unbounded (list : SuffixList) (rules : List SuffixRule) (name : Str) : Prop :=
  ∃ suffix, list.suffix name = some (suffix, some .priv) ∧ (labels name).length ≠ 1 ∧
    ¬IsRegistrySuffix rules (labels name) ∧ ∀ t ∈ Router.parents suffix, list.IsPrivate t

section Mintable

variable {list : SuffixList} {rules : List SuffixRule} {parent host s : Str}
  {type : Option SuffixType}

theorem insideRegistrable_iff : InsideRegistrable rules host ↔
    (labels host).length ≠ 1 ∧ ¬IsRegistrySuffix rules (labels host) := by
  have hanswers := answers_prevailing (icannRules rules) (labels host)
  have hle := length_le_of_answers (labels_ne_nil host) hanswers
  rw [InsideRegistrable, ← not_or, ← length_eq_iff_isRegistrySuffix (labels_ne_nil host) hanswers]
  omega

/-- Where no private rule prevails, the private rules make no difference. -/
theorem isSome_registrableIcann_iff (hdoc : list.Documented rules) (hhost : IsName host)
    (hprivate : ¬list.IsPrivate host) :
    (list.registrableIcann host).isSome ↔ InsideRegistrable rules host := by
  obtain ⟨s, type, hs, -, hanswers⟩ := hdoc host hhost
  have htype : type ≠ some .priv := by
    rintro rfl
    exact hprivate ⟨s, hs⟩
  rw [isSome_registrableIcann hdoc hhost hs htype, InsideRegistrable,
    eq_publicSuffixLength (answers_icannRules hanswers htype)]

theorem isSome_registrableIcann_iff_of_private (hdoc : list.Documented rules)
    (hhost : IsName host) (hs : list.suffix host = some (s, some .priv)) :
    ((list.registrableIcann host).isSome ↔ InsideRegistrable rules host) ↔
      ¬list.Overridden rules host ∧ ¬list.Unbounded rules host := by
  have heq : ∀ s', list.suffix host = some (s', some .priv) → s' = s := by
    intro s' hs'
    rw [hs, Option.some_inj, Prod.mk.injEq] at hs'
    exact hs'.1.symm
  have hover : list.Overridden rules host ↔ IsRegistrySuffix rules (labels host) ∧
      ∃ t ∈ Router.parents s, ¬list.IsPrivate t := by
    constructor
    · rintro ⟨s', hs', h⟩
      rwa [heq s' hs'] at h
    · exact fun h ↦ ⟨s, hs, h⟩
  have hunb : list.Unbounded rules host ↔ ((labels host).length ≠ 1 ∧
      ¬IsRegistrySuffix rules (labels host)) ∧ ¬∃ t ∈ Router.parents s, ¬list.IsPrivate t := by
    push Not
    constructor
    · rintro ⟨s', hs', h⟩
      rwa [heq s' hs', ← and_assoc] at h
    · exact fun h ↦ ⟨s, hs, by rwa [← and_assoc]⟩
  -- a single label is its own suffix, with no name above it
  have hsingle : (labels host).length = 1 → ¬∃ t ∈ Router.parents s, ¬list.IsPrivate t := by
    rintro hone ⟨t, ht, -⟩
    have hlt := (mem_parents_iff_labels.mp ht).2
    have hle := (hdoc.of_suffix hhost hs).1.length_le
    have hpos := List.length_pos_of_ne_nil (labels_ne_nil t)
    omega
  rw [isSome_registrableIcann_of_private hdoc hhost hs, insideRegistrable_iff, hover, hunb]
  generalize (∃ t ∈ Router.parents s, ¬list.IsPrivate t) = above at *
  by_cases habove : above
  · have hone : (labels host).length ≠ 1 := fun hone ↦ hsingle hone habove
    simp [habove, hone]
  · simp [habove]

/-- **When the rules of the registries decide.** A wildcard may be minted exactly when the rules of
the registries alone allow it, unless a private rule takes the place of one of theirs or leaves no
boundary. -/
theorem wildcardIsMintable_iff_iff (hdoc : list.Documented rules)
    (hip : parseIpAddr parent = none)
    (hname : IsName (asciiLowercase (trimEndMatches '.' parent))) :
    (list.wildcardIsMintable parent ↔
        InsideRegistrable rules (asciiLowercase (trimEndMatches '.' parent))) ↔
      ¬list.Overridden rules (asciiLowercase (trimEndMatches '.' parent)) ∧
        ¬list.Unbounded rules (asciiLowercase (trimEndMatches '.' parent)) := by
  have hmint : list.wildcardIsMintable parent ↔
      (list.registrableIcann (asciiLowercase (trimEndMatches '.' parent))).isSome := by
    simp [SuffixList.wildcardIsMintable, hip]
  rw [hmint]
  by_cases hprivate : list.IsPrivate (asciiLowercase (trimEndMatches '.' parent))
  · obtain ⟨s, hs⟩ := hprivate
    exact isSome_registrableIcann_iff_of_private hdoc hname hs
  · refine iff_of_true (isSome_registrableIcann_iff hdoc hname hprivate) ⟨?_, ?_⟩
    · rintro ⟨s, hs, -⟩
      exact hprivate ⟨s, hs⟩
    · rintro ⟨s, hs, -⟩
      exact hprivate ⟨s, hs⟩

end Mintable

/-- A registry's rule for all names below `io`, and a private one for `github.io`. -/
def githubRules : List SuffixRule :=
  [⟨["github".toList, "io".toList], false, .priv, by simp, by simp⟩,
    ⟨["io".toList], false, .icann, by simp, by simp⟩]

theorem wildcardIsMintable_github :
    (((SuffixList.ofRules githubRules).wildcardIsMintable "github.io".toList ↔
        InsideRegistrable githubRules
          (asciiLowercase (trimEndMatches '.' "github.io".toList))) ↔
      ¬(SuffixList.ofRules githubRules).Overridden githubRules
          (asciiLowercase (trimEndMatches '.' "github.io".toList)) ∧
        ¬(SuffixList.ofRules githubRules).Unbounded githubRules
          (asciiLowercase (trimEndMatches '.' "github.io".toList))) ∧
      (SuffixList.ofRules githubRules).wildcardIsMintable "github.io".toList :=
  ⟨wildcardIsMintable_iff_iff (SuffixList.documented_ofRules githubRules)
    (by decide +kernel) (by decide +kernel), by decide +kernel⟩

/-- The registry's rule gives out every name below `ck`; a private rule stands for one of them. -/
def governmentRules : List SuffixRule :=
  [⟨["gov".toList, "ck".toList], false, .priv, by simp, by simp⟩,
    ⟨[['*'], "ck".toList], false, .icann, by simp, by simp⟩]

/-- A wildcard for the whole of `gov.ck` is minted. -/
theorem not_wildcardIsMintable_iff :
    ¬∀ (rules : List SuffixRule) (list : SuffixList) (parent : Str), list.Documented rules →
      parseIpAddr parent = none → IsName (asciiLowercase (trimEndMatches '.' parent)) →
      (list.wildcardIsMintable parent ↔
        InsideRegistrable rules (asciiLowercase (trimEndMatches '.' parent))) := by
  intro h
  have hgov := h governmentRules (SuffixList.ofRules governmentRules) "gov.ck".toList
    (SuffixList.documented_ofRules governmentRules) (by decide +kernel) (by decide +kernel)
  exact absurd (hgov.mp (by decide +kernel)) (by decide +kernel)

end SniGate
