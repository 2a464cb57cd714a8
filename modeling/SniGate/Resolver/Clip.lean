import SniGate.Net.Parse
import SniGate.Router.Basic

/-!
# Clipping observed names

A certificate mirrors the names of the upstream's certificate, but only those this gateway may sign
and this listener routes to where the connection goes. `clip` decides this for each observed name in
turn: a wildcard must stay inside one registrable domain, and every host a name covers must route
into the certificate scope of the route that was asked for. The requested host itself is always
covered.

The public suffix list is given by what it answers for a name.

## Design choices

The router and the suffix list are asked through the functions that the source asks, and their
answers are not taken apart here. The order of the observed names counts only for the order of what
is kept, and duplicates are dropped after normalization.
-/

namespace SniGate

/-! ## Names -/

/-- Normalize an SNI host the way coverage checks expect: lowercase, no trailing dot. -/
def normalizeHost (host : Str) : Str := asciiLowercase (trimEndMatches '.' (trim host))

/-- Whether one name of a certificate is valid for a host. A wildcard matches exactly one label. -/
def sanCovers (host san : Str) : Bool :=
  san = host ||
    match stripStart "*.".toList san with
    | some suffix =>
      match splitOnce '.' host with
      | some (label, rest) => label ≠ [] && rest = suffix
      | none => false
    | none => false

/-- Whether a certificate carrying `sans` is valid for `host`. -/
def hostCoveredBy (sans : List Str) (host : Str) : Bool := sans.any (sanCovers host)

/-! ## The registry boundary -/

/-- Which section of the list a suffix is in, if it is in one. -/
inductive SuffixType
  | icann
  | priv
deriving DecidableEq, Repr

/-- The list: the suffix of a name, if it has one. -/
structure SuffixList where
  suffix : Str → Option (Str × Option SuffixType)

namespace SuffixList

variable (list : SuffixList)

/-- The first suffix outside the private section, walking up from a private one. -/
def boundary : List Str → Option Str
  | [] => none
  | name :: names =>
    match list.suffix name with
    | none => none
    | some (suffix, type) => if type = some .priv then boundary names else some suffix

/-- The domain one label below `suffix` within `host`. -/
def oneLabelBelow (host suffix : Str) : Option Str :=
  if host = suffix then none
  else
    match (stripEnd suffix host).bind (stripEnd ['.']) with
    | none => none
    | some left =>
      let last := left.rtakeWhile (· ≠ '.')
      if last = [] then none else some (last ++ '.' :: suffix)

/-- The registrable domain of `host`, ignoring the private section. -/
def registrableIcann (host : Str) : Option Str :=
  match list.suffix host with
  | none => none
  | some (suffix, type) =>
    let found := if type = some .priv then list.boundary (Router.parents suffix) else some suffix
    found.bind (oneLabelBelow host)

/-- Whether the wildcard `*.parent` stays inside one registrable domain. -/
def wildcardIsMintable (parent : Str) : Bool :=
  (parseIpAddr parent).isNone ∧
    (list.registrableIcann (asciiLowercase (trimEndMatches '.' parent))).isSome

end SuffixList

/-! ## Clipping -/

/-- Why an observed name is not mirrored. -/
inductive Drop
  | outOfScope (escape : Router.Escape)
  | crossesRegistryBoundary
  | unmintable
deriving DecidableEq, Repr

/-- What clipping decided. -/
structure MirrorPlan where
  /-- The names that will be issued. -/
  kept : List Str
  dropped : List (Str × Drop)
deriving DecidableEq, Repr

/-- What is wrong with one normalized name, if anything. -/
def judgeName (list : SuffixList) (router : Router) (inScope : RouteId → Bool) (name : Str) :
    Option Drop :=
  let confined (verdict : Except Router.Escape Unit) : Option Drop :=
    match verdict with
    | .ok () => none
    | .error escape => some (.outOfScope escape)
  match stripStart "*.".toList name with
  | some parent =>
    if parent = [] ∨ '*' ∈ parent then some .unmintable
    else if !list.wildcardIsMintable parent then some .crossesRegistryBoundary
    else confined (router.wildcardConfined parent inScope)
  | none =>
    if '*' ∈ name ∨ (parseIpAddr name).isSome then some .unmintable
    else confined (router.nameConfined name inScope)

/-- Decide about one observed name; an empty or repeated one is skipped. -/
def clipStep (list : SuffixList) (router : Router) (inScope : RouteId → Bool) (plan : MirrorPlan)
    (san : Str) : MirrorPlan :=
  let name := normalizeHost san
  if name = [] ∨ name ∈ plan.kept then plan
  else
    match judgeName list router inScope name with
    | none => { plan with kept := plan.kept ++ [name] }
    | some drop => { plan with dropped := plan.dropped ++ [(name, drop)] }

/-- Clip `observed` to the names that are safe to mirror for `sniHost`. -/
def clip (list : SuffixList) (router : Router) (inScope : RouteId → Bool) (sniHost : Str)
    (observed : List Str) : MirrorPlan :=
  let host := normalizeHost sniHost
  let plan := observed.foldl (clipStep list router inScope) ⟨[], []⟩
  if hostCoveredBy plan.kept host then plan else { plan with kept := plan.kept ++ [host] }

section Clip

variable {list : SuffixList} {router : Router} {inScope : RouteId → Bool} {plan : MirrorPlan}
  {observed : List Str} {sniHost name host parent : Str} {verdict : Except Router.Escape Unit}
  {escape : Router.Escape}

/-- A verdict on the routes drops a name only with an escape. -/
theorem confined_eq_none : (match verdict with
    | .ok () => none
    | .error escape => some (Drop.outOfScope escape)) = none ↔ verdict = .ok () := by
  cases verdict <;> simp

theorem confined_eq_outOfScope : (match verdict with
    | .ok () => none
    | .error escape => some (Drop.outOfScope escape)) = some (.outOfScope escape) ↔
      verdict = .error escape := by
  cases verdict <;> simp

/-- A name without a wildcard that is kept. -/
theorem judgeName_exact (hname : stripStart "*.".toList name = none)
    (h : judgeName list router inScope name = none) :
    '*' ∉ name ∧ parseIpAddr name = none ∧ router.nameConfined name inScope = .ok () := by
  rw [judgeName, hname] at h
  dsimp only at h
  split_ifs at h with hliteral
  rw [not_or, Option.not_isSome_iff_eq_none] at hliteral
  exact ⟨hliteral.1, hliteral.2, confined_eq_none.mp h⟩

theorem judgeName_wildcard (h : judgeName list router inScope ("*.".toList ++ parent) = none) :
    parent ≠ [] ∧ list.wildcardIsMintable parent ∧
      router.wildcardConfined parent inScope = .ok () := by
  rw [judgeName, stripStart_eq_some.mpr (rfl : "*.".toList ++ parent = _)] at h
  dsimp only at h
  split_ifs at h with hempty hmintable
  exact ⟨(not_or.mp hempty).1, by simpa using hmintable, confined_eq_none.mp h⟩

theorem judgeName_exact_outOfScope (hname : stripStart "*.".toList name = none)
    (h : judgeName list router inScope name = some (.outOfScope escape)) :
    router.nameConfined name inScope = .error escape := by
  rw [judgeName, hname] at h
  dsimp only at h
  split_ifs at h with hliteral
  · exact absurd h nofun
  · exact confined_eq_outOfScope.mp h

theorem judgeName_wildcard_outOfScope
    (h : judgeName list router inScope ("*.".toList ++ parent) = some (.outOfScope escape)) :
    parent ≠ [] ∧ router.wildcardConfined parent inScope = .error escape := by
  rw [judgeName, stripStart_eq_some.mpr (rfl : "*.".toList ++ parent = _)] at h
  dsimp only at h
  split_ifs at h with hempty hmintable
  · exact absurd h nofun
  · exact absurd h nofun
  · exact ⟨(not_or.mp hempty).1, confined_eq_outOfScope.mp h⟩

theorem mem_kept_foldl (h : name ∈ (observed.foldl (clipStep list router inScope) plan).kept) :
    name ∈ plan.kept ∨ judgeName list router inScope name = none := by
  induction observed generalizing plan with
  | nil => exact .inl h
  | cons san sans ih =>
    rw [List.foldl_cons] at h
    refine (ih h).elim (fun hstep ↦ ?_) .inr
    rw [clipStep] at hstep
    split_ifs at hstep
    · exact .inl hstep
    · cases hjudge : judgeName list router inScope (normalizeHost san) with
      | none =>
        rw [hjudge] at hstep
        rcases List.mem_append.mp hstep with hin | hin
        · exact .inl hin
        · exact .inr (List.mem_singleton.mp hin ▸ hjudge)
      | some drop =>
        rw [hjudge] at hstep
        exact .inl hstep

/-- **What is kept** has been judged, or is the requested host. -/
theorem mem_kept_clip (h : name ∈ (clip list router inScope sniHost observed).kept) :
    name = normalizeHost sniHost ∨ judgeName list router inScope name = none := by
  rw [clip] at h
  split_ifs at h
  · exact .inr ((mem_kept_foldl h).resolve_left List.not_mem_nil)
  · rcases List.mem_append.mp h with hin | hin
    · exact .inr ((mem_kept_foldl hin).resolve_left List.not_mem_nil)
    · exact .inl (List.mem_singleton.mp hin)

theorem sanCovers_self : sanCovers host host := by simp [sanCovers]

theorem hostCoveredBy_self : hostCoveredBy [host] host := by simp [hostCoveredBy, sanCovers_self]

/-- **The requested host is covered.** -/
theorem hostCoveredBy_clip :
    hostCoveredBy (clip list router inScope sniHost observed).kept (normalizeHost sniHost) := by
  rw [clip]
  split_ifs with hcovered
  · exact hcovered
  · rw [hostCoveredBy, List.any_append, Bool.or_eq_true]
    exact .inr hostCoveredBy_self

end Clip

end SniGate
