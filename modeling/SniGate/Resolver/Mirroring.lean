import SniGate.Resolver.Clip
import SniGate.Resolver.Confinement
import SniGate.Router.Precedence
import SniGate.Router.Wildcards

/-!
# What clipping keeps and drops

Every observed name is judged once: what is kept of them was judged harmless, and what is dropped is
recorded with the reason (`Judged`). Together with what confinement decides this makes clipping
sound, since no kept name covers a host that is routed out of the scope, and exact, since no name is
dropped for its routes unless it covers such a host.

A wildcard is judged by the normal form of its parent. For one that has a parent with whitespace in
front, say, the verdict is about other hosts than those with its literal parent; no host name is
concerned.
-/

namespace SniGate

/-! ## Judging -/

/-- What has been decided about the names `done`. -/
structure Judged (list : SuffixList) (router : Router) (inScope : RouteId → Bool) (done : List Str)
    (plan : MirrorPlan) : Prop where
  nodup : plan.kept.Nodup
  kept : ∀ name ∈ plan.kept, name ∈ done.map normalizeHost ∧
    judgeName list router inScope name = none
  dropped : ∀ p ∈ plan.dropped, judgeName list router inScope p.1 = some p.2
  all : ∀ san ∈ done, normalizeHost san ≠ [] →
    normalizeHost san ∈ plan.kept ∨ ∃ drop, (normalizeHost san, drop) ∈ plan.dropped

section Judging

variable {list : SuffixList} {router : Router} {inScope : RouteId → Bool} {plan : MirrorPlan}
  {done observed : List Str}

theorem Judged.step (h : Judged list router inScope done plan) (san : Str) :
    Judged list router inScope (done ++ [san]) (clipStep list router inScope plan san) := by
  obtain ⟨hnodup, hkept, hdropped, hall⟩ := h
  have hkept' : ∀ name ∈ plan.kept, name ∈ (done ++ [san]).map normalizeHost ∧
      judgeName list router inScope name = none := fun name hname ↦ by
    rw [List.map_append]
    exact ⟨List.mem_append_left _ (hkept name hname).1, (hkept name hname).2⟩
  have hlast : normalizeHost san ∈ (done ++ [san]).map normalizeHost :=
    List.mem_map_of_mem (List.mem_append_right _ (List.mem_singleton_self _))
  rw [clipStep]
  by_cases hskip : normalizeHost san = [] ∨ normalizeHost san ∈ plan.kept
  · rw [if_pos hskip]
    refine ⟨hnodup, hkept', hdropped, fun s hs hne ↦ ?_⟩
    rcases List.mem_append.mp hs with hs | hs
    · exact hall s hs hne
    · rw [List.mem_singleton.mp hs] at hne ⊢
      exact .inl (hskip.resolve_left hne)
  rw [if_neg hskip]
  rw [not_or] at hskip
  cases hjudge : judgeName list router inScope (normalizeHost san) with
  | none =>
    refine ⟨?_, fun name hname ↦ ?_, hdropped, fun s hs hne ↦ ?_⟩
    · exact List.nodup_append.mpr ⟨hnodup, List.nodup_singleton _, fun a ha b hb hab ↦
        hskip.2 (List.mem_singleton.mp hb ▸ hab ▸ ha)⟩
    · rcases List.mem_append.mp hname with hname | hname
      · exact hkept' name hname
      · rw [List.mem_singleton.mp hname]
        exact ⟨hlast, hjudge⟩
    · rcases List.mem_append.mp hs with hs | hs
      · exact (hall s hs hne).imp_left (List.mem_append_left _)
      · rw [List.mem_singleton.mp hs]
        exact .inl (List.mem_append_right _ (List.mem_singleton_self _))
  | some drop =>
    refine ⟨hnodup, hkept', fun p hp ↦ ?_, fun s hs hne ↦ ?_⟩
    · rcases List.mem_append.mp hp with hp | hp
      · exact hdropped p hp
      · rw [List.mem_singleton.mp hp]
        exact hjudge
    · rcases List.mem_append.mp hs with hs | hs
      · exact (hall s hs hne).imp_right (Exists.imp fun _ ↦ List.mem_append_left _)
      · rw [List.mem_singleton.mp hs]
        exact .inr ⟨drop, List.mem_append_right _ (List.mem_singleton_self _)⟩

theorem judged_foldl (list : SuffixList) (router : Router) (inScope : RouteId → Bool)
    (observed : List Str) :
    Judged list router inScope observed
      (observed.foldl (clipStep list router inScope) ⟨[], []⟩) := by
  have hrun : ∀ (rest done : List Str) (plan : MirrorPlan), Judged list router inScope done plan →
      Judged list router inScope (done ++ rest)
        (rest.foldl (clipStep list router inScope) plan) := by
    intro rest
    induction rest with
    | nil => exact fun done plan h ↦ by rwa [List.append_nil]
    | cons san rest ih =>
      intro done plan h
      have hrest := ih (done ++ [san]) _ (h.step san)
      rwa [List.append_assoc] at hrest
  exact hrun observed [] ⟨[], []⟩ ⟨List.nodup_nil, nofun, nofun, nofun⟩

end Judging

/-! ## Soundness and exactness -/

/-- The router sends a host into the set. -/
def Router.RoutesTo (r : Router) (inScope : RouteId → Bool) (host : Str) : Prop :=
  ∃ id, r.matchHost host = some id ∧ inScope id

/-- What a plan for `host` says about the names `observed`; `survivors` are those of them that are
kept. -/
structure Mirrors (list : SuffixList) (r : Router) (inScope : RouteId → Bool) (host : Str)
    (observed survivors : List Str) (plan : MirrorPlan) : Prop where
  /-- The host is added at the end where it is not covered yet. -/
  kept : plan.kept = survivors ++ if hostCoveredBy survivors host then [] else [host]
  covered : hostCoveredBy plan.kept host
  nodup : plan.kept.Nodup
  /-- Nothing else is kept that was not observed. -/
  subset : ∀ name ∈ survivors, name ∈ observed.map normalizeHost
  exact : ∀ name ∈ survivors, stripStart "*.".toList name = none →
    r.RoutesTo inScope name ∧ parseIpAddr name = none ∧ '*' ∉ name
  /-- Every host one label above the parent of a wildcard that is kept is routed into the set. -/
  wildcard : ∀ parent, "*.".toList ++ parent ∈ survivors → list.wildcardIsMintable parent ∧
    (Router.normalize parent = parent →
      ∀ host, WildcardCovers parent (Router.normalize host) → r.RoutesTo inScope host)
  complete : ∀ san ∈ observed, normalizeHost san ≠ [] →
    normalizeHost san ∈ plan.kept ∨ ∃ drop, (normalizeHost san, drop) ∈ plan.dropped
  /-- What is dropped for its routes covers a host that is not routed into the set. -/
  dropped : r.regex = [] → ∀ name escape, (name, .outOfScope escape) ∈ plan.dropped →
    (stripStart "*.".toList name = none → ¬r.RoutesTo inScope name) ∧
    ∀ parent, name = "*.".toList ++ parent → Router.normalize parent = parent →
      ∃ host, WildcardCovers parent (Router.normalize host) ∧ ¬r.RoutesTo inScope host

section Clipping

variable {list : SuffixList} {r : Router} {inScope : RouteId → Bool} {parent host name : Str}

/-- What is said of hosts that are their own normal forms holds of the others too. -/
theorem Router.RoutesInto.routesTo (h : r.RoutesInto parent inScope)
    (hparent : normalize parent = parent) (hcovers : WildcardCovers parent (normalize host)) :
    r.RoutesTo inScope host := by
  obtain ⟨l, hl, hdot, heq⟩ := hcovers
  have hne : parent ≠ [] := by
    rintro rfl
    -- a normal form does not end in a dot
    have hlast : (normalize host).getLast? = some '.' := by rw [heq]; simp
    rw [normalize, ← trimEndMatches_asciiLowercase] at hlast
    exact trimEndMatches_eq_self_iff.mp (List.rdropWhile_idempotent _ _) hlast
  have hnorm := normalize_below_of_eq_normalize hparent hne hl heq.symm
  obtain ⟨id, hid, hscope⟩ := h l hl hdot hnorm
  refine ⟨id, ?_, hscope⟩
  rw [← hid, matchHost, matchHost, hnorm, heq]

theorem Router.RoutesTo.of_nameConfined (h : r.nameConfined name inScope = .ok ()) :
    r.RoutesTo inScope name :=
  matchHost_of_nameConfined h

theorem Router.RoutesTo.not_of_nameConfined {escape : Escape}
    (h : r.nameConfined name inScope = .error escape) : ¬r.RoutesTo inScope name := by
  rintro ⟨id, hid, hscope⟩
  rw [nameConfined, hid] at h
  simp [hscope] at h

/-- A wildcard that is found to escape covers a host that does. -/
theorem Router.exists_not_routesTo {regexNew : RegexNew} {regexes : Map Str RegexDef}
    {es : List (Str × RouteId)} {escape : Escape} (hbuilt : Built regexNew regexes es r)
    (hregex : r.regex = []) (hparent : normalize parent = parent) (hne : parent ≠ [])
    (h : r.wildcardConfined parent inScope = .error escape) :
    ∃ host, WildcardCovers parent (normalize host) ∧ ¬r.RoutesTo inScope host := by
  by_contra hall
  push Not at hall
  have hinto : r.RoutesInto parent inScope := fun l hl hdot hnorm ↦
    hall _ ⟨l, hl, hdot, hnorm⟩
  rw [wildcardConfined_of_routesInto hbuilt hregex hparent hne hinto] at h
  exact absurd h nofun

theorem mem_hostCoveredBy {sans : List Str} (h : host ∈ sans) : hostCoveredBy sans host :=
  List.any_eq_true.mpr ⟨host, h, sanCovers_self⟩

end Clipping

/-- **Clipping is sound and exact.** The names that are observed are kept where all their hosts are
routed into the scope, and dropped where some are not; the requested host is covered. -/
theorem clip_mirrors {regexNew : RegexNew} {patterns : List (List Str)} {default : Option RouteId}
    {regexes : Map Str RegexDef} {r : Router}
    (hbuild : Router.build regexNew patterns default regexes = .ok r) (hconfined : r.RegexConfined)
    (list : SuffixList) {S : Type} [DecidableEq S] (scopeOf : RouteId → S) (owner : RouteId)
    (sniHost : Str) (observed : List Str) :
    ∃ survivors, Mirrors list r (fun id ↦ scopeOf id = scopeOf owner) (normalizeHost sniHost)
        observed survivors (clip list r (fun id ↦ scopeOf id = scopeOf owner) sniHost observed) ∧
      (IsHostName sniHost → r.matchHost sniHost = some owner →
        r.RoutesTo (fun id ↦ scopeOf id = scopeOf owner) (normalizeHost sniHost) ∧
        stripStart "*.".toList (normalizeHost sniHost) = none ∧ '*' ∉ normalizeHost sniHost) := by
  have hjudged := judged_foldl list r (fun id ↦ scopeOf id = scopeOf owner) observed
  generalize hplan : observed.foldl (clipStep list r fun id ↦ scopeOf id = scopeOf owner) ⟨[], []⟩ =
    plan at hjudged
  obtain ⟨hnodup, hkept, hdropped, hall⟩ := hjudged
  have hclip : clip list r (fun id ↦ scopeOf id = scopeOf owner) sniHost observed =
      ⟨plan.kept ++ if hostCoveredBy plan.kept (normalizeHost sniHost) then []
        else [normalizeHost sniHost], plan.dropped⟩ := by
    rw [clip, hplan]
    split_ifs
    · rw [List.append_nil]
    · rfl
  refine ⟨plan.kept, ?_, fun hname hroute ↦ ⟨?_, ?_, ?_⟩⟩
  · exact {
      kept := by rw [hclip]
      covered := hostCoveredBy_clip
      nodup := by
        rw [hclip]
        split_ifs with hcovered
        · rwa [List.append_nil]
        · refine List.nodup_append.mpr ⟨hnodup, List.nodup_singleton _, fun a ha b hb hab ↦ ?_⟩
          rw [hab, List.mem_singleton.mp hb] at ha
          exact hcovered (mem_hostCoveredBy ha)
      subset := fun name hname ↦ (hkept name hname).1
      exact := fun name hname hstrip ↦ by
        obtain ⟨hstar, hliteral, hok⟩ := judgeName_exact hstrip (hkept name hname).2
        exact ⟨.of_nameConfined hok, hliteral, hstar⟩
      wildcard := fun parent hname ↦ by
        obtain ⟨-, hmintable, hok⟩ := judgeName_wildcard (hkept _ hname).2
        exact ⟨hmintable, fun hparent host ↦
          (Router.routesInto_of_wildcardConfined hconfined hparent hok).routesTo hparent⟩
      complete := fun san hsan hne ↦ by
        rw [hclip]
        exact (hall san hsan hne).imp_left (List.mem_append_left _)
      dropped := fun hregex name escape hmem ↦ by
        rw [hclip] at hmem
        have hjudge := hdropped _ hmem
        refine ⟨fun hstrip ↦
          Router.RoutesTo.not_of_nameConfined (judgeName_exact_outOfScope hstrip hjudge), ?_⟩
        rintro parent rfl hparent
        obtain ⟨hne, herror⟩ := judgeName_wildcard_outOfScope hjudge
        exact Router.exists_not_routesTo (Router.built_of_build hbuild).1 hregex hparent hne
          herror }
  · refine ⟨owner, ?_, decide_eq_true rfl⟩
    rw [normalizeHost_eq_normalize hname, Router.matchHost_normalize r hname, hroute]
  · exact stripStart_of_isHostName (isHostName_normalizeHost hname)
  · exact fun hstar ↦ absurd (isHostName_normalizeHost hname _ hstar) (by decide)

/-! ## Names that are no host names -/

/-- A route for `*.a.com` and for a text with a space in it, and one for `*.b.com` that is the
default. -/
def spacedRouter : Router where
  exact := (∅ : Map Str RouteId).insert "y. b.com".toList 0
  wildcard := ((∅ : Map Str RouteId).insert "a.com".toList 0).insert "b.com".toList 1
  suffix := ∅
  regex := []
  default := some 1

/-- A list in which `com` is the suffix of every name. -/
def comList : SuffixList := ⟨fun _ ↦ some ("com".toList, some .icann)⟩

theorem notMem_asciiLowercase {l : Str} (hdot : '.' ∉ l) : '.' ∉ asciiLowercase l := by
  intro hmem
  obtain ⟨c, hc, heq⟩ := List.mem_map.mp hmem
  exact hdot (toLower_eq_dot.mp heq ▸ hc)

/-- What comes before ` a.com` is cut off with it at a colon, or is a label. -/
theorem normalize_below_space {l : Str} (hdot : '.' ∉ l) :
    '.' ∉ Router.normalize (l ++ '.' :: " a.com".toList) ∨ ∃ l', '.' ∉ l' ∧
      Router.normalize (l ++ '.' :: " a.com".toList) = l' ++ '.' :: " a.com".toList := by
  have hstart : '.' ∉ l.dropWhile isWhitespace := fun h ↦
    hdot ((List.dropWhile_suffix _).subset h)
  have hspace : (" a.com".toList).rdropWhile isWhitespace = " a.com".toList := by decide +kernel
  rw [Router.normalize, trim_append_cons (by decide), hspace]
  generalize l.dropWhile isWhitespace = start at hstart
  have hwhole : asciiLowercase (trimEndMatches '.' (start ++ '.' :: " a.com".toList)) =
      asciiLowercase start ++ '.' :: " a.com".toList := by
    rw [trimEndMatches_append (by decide), asciiLowercase, List.map_append]
    rfl
  by_cases hcut : (start ++ '.' :: " a.com".toList).head? = some '[' ∨ ':' ∉ start
  · right
    refine ⟨asciiLowercase start, notMem_asciiLowercase hstart, ?_⟩
    rw [← hwhole]
    split_ifs with hbracket
    · rfl
    · congr 2
      refine List.takeWhile_eq_self_iff.mpr fun c hc ↦ decide_eq_true ?_
      rintro rfl
      rcases List.mem_append.mp hc with hc | hc
      · exact hcut.resolve_left hbracket hc
      · exact absurd hc (by decide)
  · rw [not_or, not_not] at hcut
    left
    simp only [if_neg hcut.1]
    refine notMem_asciiLowercase fun hmem ↦ hstart ?_
    have hcolon : ¬((start.takeWhile (· ≠ ':')).length = start.length) := fun hlen ↦ by
      have hself := (List.takeWhile_prefix (· ≠ ':')).eq_of_length hlen
      simpa using List.takeWhile_eq_self_iff.mp hself _ hcut.2
    have hmem' := (List.rdropWhile_prefix _ _).subset hmem
    rw [List.takeWhile_append, if_neg hcolon] at hmem'
    exact (List.takeWhile_prefix _).subset hmem'

theorem matchHost_spacedRouter {l : Str} (hdot : '.' ∉ l) :
    spacedRouter.matchHost (l ++ '.' :: " a.com".toList) = some 1 := by
  by_cases hne : Router.normalize (l ++ '.' :: " a.com".toList) = []
  · rw [Router.matchHost, if_pos hne]
    rfl
  have hkey : ∀ l', '.' ∉ l' → l' ++ '.' :: " a.com".toList ≠ ['y'] ++ '.' :: " b.com".toList :=
    fun l' hdot' heq ↦
      absurd (Router.append_dot_inj hdot' (by decide) heq).2 (by decide)
  have hshape := normalize_below_space hdot
  rw [Router.matchHost_eq_or hne]
  generalize Router.normalize (l ++ '.' :: " a.com".toList) = name at hshape
  have hexact : spacedRouter.exact.lookup name = none := by
    refine AList.lookup_insert_ne fun heq ↦ ?_
    rcases hshape with hnone | ⟨l', hdot', rfl⟩
    · exact hnone (heq ▸ by decide)
    · exact hkey l' hdot' heq
  have hwildcard : ((splitOnce '.' name).bind fun p ↦ spacedRouter.wildcard.lookup p.2) = none := by
    rcases hshape with hnone | ⟨l', hdot', rfl⟩
    · cases hsplit : splitOnce '.' name with
      | none => rfl
      | some p =>
        rw [(Router.splitOnce_eq_some.mp hsplit).1] at hnone
        exact absurd (List.mem_append_right _ List.mem_cons_self) hnone
    · rw [Router.splitOnce_append hdot']
      rfl
  have hwalk : spacedRouter.suffixWalk name = none :=
    List.findSome?_eq_none_iff.mpr fun _ _ ↦ rfl
  rw [hexact, hwildcard, hwalk]
  rfl

/-- The wildcard `*. a.com` is dropped although every host with its literal parent is routed to the
owner, `*. b.com` is kept although one is not, and the requested host is kept although it is an
address. -/
theorem clip_spacedRouter :
    Router.build (fun _ ↦ .error []) [["*.a.com".toList, "y. b.com".toList], ["*.b.com".toList]]
        (some 1) ∅ = .ok spacedRouter ∧
      spacedRouter.matchHost "1.2.3.4".toList = some 1 ∧
      clip comList spacedRouter (fun id ↦ id = 1) "1.2.3.4".toList
        ["1.2.3.4".toList, "*. a.com".toList, "*. b.com".toList] =
          ⟨["*. b.com".toList, "1.2.3.4".toList], [("1.2.3.4".toList, .unmintable),
            ("*. a.com".toList, .outOfScope (.host "*.a.com".toList 0))]⟩ ∧
      (parseIpAddr "1.2.3.4".toList).isSome ∧
      (∀ host, WildcardCovers " a.com".toList host → spacedRouter.matchHost host = some 1) ∧
      WildcardCovers " b.com".toList "y. b.com".toList ∧
      spacedRouter.matchHost "y. b.com".toList = some 0 := by
  refine ⟨rfl, by decide +kernel, by decide +kernel, by decide +kernel, ?_,
    ⟨['y'], by decide, by decide, rfl⟩, by decide +kernel⟩
  rintro host ⟨l, -, hdot, rfl⟩
  exact matchHost_spacedRouter hdot

/-- For a host of the owner the wildcard with its parent is kept, and the other one is dropped. -/
theorem clip_mirrors_spacedRouter :
    ∃ survivors, Mirrors comList spacedRouter (fun id ↦ id = 1) "x.b.com".toList
      ["*.B.com".toList, "*.a.com".toList] survivors
      ⟨["*.b.com".toList], [("*.a.com".toList, .outOfScope (.host "*.a.com".toList 0))]⟩ := by
  have hbuild : Router.build (fun _ ↦ .error [])
      [["*.a.com".toList, "y. b.com".toList], ["*.b.com".toList]] (some 1) ∅ =
      .ok spacedRouter := rfl
  obtain ⟨survivors, hmirrors, -⟩ := clip_mirrors hbuild nofun comList id 1 "x.b.com".toList
    ["*.B.com".toList, "*.a.com".toList]
  have hclip : clip comList spacedRouter (fun id ↦ id = 1) "x.b.com".toList
      ["*.B.com".toList, "*.a.com".toList] =
      ⟨["*.b.com".toList], [("*.a.com".toList, .outOfScope (.host "*.a.com".toList 0))]⟩ := by
    decide +kernel
  have hhost : normalizeHost "x.b.com".toList = "x.b.com".toList := by decide +kernel
  rw [hhost] at hmirrors
  exact ⟨survivors, hclip ▸ hmirrors⟩

end SniGate
