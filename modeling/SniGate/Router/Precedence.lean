import SniGate.Router.NormalForm
import SniGate.Router.Table

/-!
# Precedence

A built router answers as its table of patterns says: the route of the exact pattern, else that of
the wildcard one label up, else that of the longest suffix pattern, else that of the first regular
expression that matches, else the default (`matchHost_eq_iff_resolves`). The answer depends on the
table only through its keys and the order of its regular expressions: a table listed in another
order is accepted as well and resolves alike, up to the names of the routes.

## Main definitions

* `FirstTier`: the answer of the first tier that has one.
* `Table.Resolves`: what a table says about a name.
* `Acceptable`: the tables that a router can be built from.
* `Reordered`: a table that lists the entries of another in a different order.
-/

namespace SniGate

/-! ## Tiers -/

/-- The answer of the first tier that has one, and the default where none has. -/
inductive FirstTier {ι : Type} (default : Option ι) : List (ι → Prop) → Option ι → Prop
  | default : FirstTier default [] default
  | here {tier : ι → Prop} {tiers : List (ι → Prop)} {id : ι} (h : tier id) :
    FirstTier default (tier :: tiers) (some id)
  | later {tier : ι → Prop} {tiers : List (ι → Prop)} {o : Option ι} (hnone : ∀ id, ¬tier id)
    (h : FirstTier default tiers o) : FirstTier default (tier :: tiers) o

section FirstTier

variable {ι κ : Type} {default o : Option ι} {tiers : List (ι → Prop)}

theorem firstTier_iff {answers : List (Option ι)}
    (h : List.Forall₂ (fun answer tier ↦ ∀ id, answer = some id ↔ tier id) answers tiers) :
    answers.foldr Option.or default = o ↔ FirstTier default tiers o := by
  induction h with
  | nil =>
    rw [List.foldr_nil]
    constructor
    · rintro rfl
      exact .default
    · rintro ⟨⟩
      rfl
  | @cons answer tier answers tiers h _ ih =>
    rw [List.foldr_cons]
    cases answer with
    | none =>
      have hnone : ∀ id, ¬tier id := fun id hid ↦ absurd ((h id).mpr hid) nofun
      rw [Option.none_or, ih]
      refine ⟨.later hnone, fun hfirst ↦ ?_⟩
      cases hfirst with
      | here hid => exact absurd hid (hnone _)
      | later _ hfirst => exact hfirst
    | some id =>
      rw [Option.some_or]
      constructor
      · rintro rfl
        exact .here ((h id).mp rfl)
      · intro hfirst
        cases hfirst with
        | here hid => exact (h _).mpr hid
        | later hnone _ => exact absurd ((h id).mp rfl) (hnone id)

theorem FirstTier.map (f : ι → κ) {tiers' : List (κ → Prop)}
    (h : List.Forall₂ (fun tier tier' ↦ ∀ j, tier' j ↔ ∃ i, f i = j ∧ tier i) tiers tiers')
    (hfirst : FirstTier default tiers o) : FirstTier (default.map f) tiers' (o.map f) := by
  induction h with
  | nil =>
    cases hfirst
    exact .default
  | cons h _ ih =>
    cases hfirst with
    | here hid => exact .here ((h _).mpr ⟨_, rfl, hid⟩)
    | later hnone hfirst =>
      refine .later (fun j hj ↦ ?_) (ih hfirst)
      obtain ⟨i, -, hi⟩ := (h j).mp hj
      exact hnone i hi

end FirstTier

namespace Router

/-! ## What a table says -/

/-- The names of a suffix pattern: the domain itself and everything below it. -/
def InDomain (domain name : Str) : Prop := name = domain ∨ ('.' :: domain) <:+ name

/-- A table of patterns: its entries, its regular expressions in the order of the references to
them, and its default route. -/
structure Table where
  entries : List (Str × RouteId)
  regex : List RegexRoute
  default : Option RouteId

namespace Table

variable (t : Table) (name : Str)

/-- The exact pattern. -/
def Exact (id : RouteId) : Prop := KeyIn t.entries .exact name id

/-- The wildcard pattern one label up. -/
def Wildcard (id : RouteId) : Prop :=
  ∃ l parent, name = l ++ '.' :: parent ∧ '.' ∉ l ∧ KeyIn t.entries .wildcard parent id

/-- The longest suffix pattern. -/
def LongestSuffix (id : RouteId) : Prop :=
  ∃ domain, InDomain domain name ∧ KeyIn t.entries .suffix domain id ∧
    ∀ domain' id', InDomain domain' name → KeyIn t.entries .suffix domain' id' →
      domain'.length ≤ domain.length

/-- The first regular expression that matches. -/
def FirstRegex (id : RouteId) : Prop :=
  ∃ before route after, t.regex = before ++ route :: after ∧
    (∀ earlier ∈ before, ¬earlier.pattern name) ∧ route.pattern name ∧ route.routeId = id

/-- **The documented precedence.** What a table says about a name in normal form. -/
def Resolves (o : Option RouteId) : Prop :=
  if name = [] then o = t.default
  else
    FirstTier t.default [t.Exact name, t.Wildcard name, t.LongestSuffix name, t.FirstRegex name] o

end Table

/-- The table of a list of routes. -/
def tableOf (regexNew : RegexNew) (regexes : Map Str RegexDef) (patterns : List (List Str))
    (default : Option RouteId) : Table where
  entries := entries patterns
  regex := (entries patterns).filterMap (entryRegex regexNew regexes)
  default

section Resolves

variable {regexNew : RegexNew} {regexes : Map Str RegexDef} {patterns : List (List Str)}
  {default : Option RouteId} {r : Router} {t : Table} {name domain host : Str} {id : RouteId}

/-! ## The walk -/

theorem mem_parents_iff : domain ∈ parents name ↔ ('.' :: domain) <:+ name := by
  induction name with
  | nil => simp [parents]
  | cons c rest ih =>
    rw [parents, List.suffix_cons_iff]
    split_ifs with hc
    · rw [List.mem_cons, ih, hc, List.cons.injEq]
      simp
    · rw [ih]
      exact ⟨.inr, fun h ↦ h.resolve_left fun heq ↦ hc (List.cons.inj heq).1.symm⟩

theorem mem_ancestors_iff : domain ∈ ancestors name ↔ InDomain domain name := by
  rw [ancestors, List.mem_cons, mem_parents_iff, InDomain, eq_comm]

theorem pairwise_ancestors (name : Str) :
    (ancestors name).Pairwise fun a b ↦ b.length < a.length := by
  have hshorter : ∀ name : Str, ∀ b ∈ parents name, b.length < name.length := by
    intro name b hb
    have hlen := (mem_parents_iff.mp hb).length_le
    rwa [List.length_cons] at hlen
  induction name with
  | nil => exact List.pairwise_singleton _ _
  | cons c rest ih =>
    refine List.pairwise_cons.mpr ⟨hshorter _, ?_⟩
    rw [parents]
    split_ifs
    · exact ih
    · exact (List.pairwise_cons.mp ih).2

/-- The first one of an ordered walk that has an answer is a greatest one that has. -/
theorem findSome?_eq_some_iff {α β : Type} {xs : List α} {f : α → Option β} {size : α → ℕ} {b : β}
    (hsorted : xs.Pairwise fun x y ↦ size y < size x) :
    xs.findSome? f = some b ↔
      ∃ x ∈ xs, f x = some b ∧ ∀ y ∈ xs, (f y).isSome → size y ≤ size x := by
  induction xs with
  | nil => simp
  | cons x xs ih =>
    obtain ⟨hx, hsorted⟩ := List.pairwise_cons.mp hsorted
    rw [List.findSome?_cons]
    cases hfx : f x with
    | none =>
      simp only [ih hsorted, List.mem_cons, exists_eq_or_imp, forall_eq_or_imp, hfx,
        Option.isSome_none, Bool.false_eq_true, false_imp_iff, true_and, false_and, false_or,
        reduceCtorEq]
    | some b' =>
      constructor
      · intro heq
        refine ⟨x, List.mem_cons_self, hfx.trans heq, fun y hy _ ↦ ?_⟩
        rcases List.mem_cons.mp hy with rfl | hy
        · exact le_rfl
        · exact (hx y hy).le
      · rintro ⟨y, hy, hfy, hmax⟩
        rcases List.mem_cons.mp hy with rfl | hy
        · exact hfx.symm.trans hfy
        · -- a later one is smaller
          exact absurd (hmax x List.mem_cons_self (by rw [hfx]; rfl)) (hx y hy).not_ge

/-! ## The tiers of a built router -/

/-- What the tiers of a router make of a host whose normal form is not empty. -/
theorem matchHost_eq_foldr (hne : normalize host ≠ []) :
    r.matchHost host = [r.exact.lookup (normalize host),
      (splitOnce '.' (normalize host)).bind fun p ↦ r.wildcard.lookup p.2,
      r.suffixWalk (normalize host), r.regexTier (normalize host)].foldr Option.or r.default :=
  matchHost_eq_or hne

theorem splitOnce_eq_some {l : Str} :
    splitOnce '.' name = some (l, domain) ↔ name = l ++ '.' :: domain ∧ '.' ∉ l := by
  constructor
  · intro h
    rw [splitOnce] at h
    have hsplit := List.takeWhile_append_dropWhile (p := fun c ↦ decide (c ≠ '.')) (l := name)
    have hhead := List.head?_dropWhile_not (fun c ↦ decide (c ≠ '.')) name
    cases hdrop : name.dropWhile (fun c ↦ decide (c ≠ '.')) with
    | nil => rw [hdrop] at h; exact absurd h (by simp)
    | cons c rest =>
      rw [hdrop] at h hsplit hhead
      obtain ⟨rfl, rfl⟩ := Prod.mk.inj (Option.some.inj h)
      have hc : c = '.' := by simpa using hhead
      rw [hc] at hsplit
      exact ⟨hsplit.symm, fun hdot ↦ absurd (List.mem_takeWhile_imp hdot) (by simp)⟩
  · rintro ⟨rfl, hdot⟩
    exact splitOnce_append hdot

theorem wildcard_iff (h : Built regexNew regexes t.entries r) :
    ((splitOnce '.' name).bind fun p ↦ r.wildcard.lookup p.2) = some id ↔ t.Wildcard name id := by
  constructor
  · intro hsome
    obtain ⟨⟨l, parent⟩, hsplit, hid⟩ := Option.bind_eq_some_iff.mp hsome
    obtain ⟨hname, hdot⟩ := splitOnce_eq_some.mp hsplit
    exact ⟨l, parent, hname, hdot, (h.wildcard parent id).mp hid⟩
  · rintro ⟨l, parent, rfl, hdot, hid⟩
    rw [splitOnce_append hdot]
    exact (h.wildcard parent id).mpr hid

theorem suffixWalk_iff (h : Built regexNew regexes t.entries r) :
    r.suffixWalk name = some id ↔ t.LongestSuffix name id := by
  rw [suffixWalk, findSome?_eq_some_iff (pairwise_ancestors name), Table.LongestSuffix]
  constructor
  · rintro ⟨domain, hmem, hid, hmax⟩
    refine ⟨domain, mem_ancestors_iff.mp hmem, (h.suffix domain id).mp hid, ?_⟩
    intro domain' id' hin hid'
    exact hmax domain' (mem_ancestors_iff.mpr hin) (by rw [(h.suffix domain' id').mpr hid']; rfl)
  · rintro ⟨domain, hin, hid, hmax⟩
    refine ⟨domain, mem_ancestors_iff.mpr hin, (h.suffix domain id).mpr hid, ?_⟩
    intro domain' hmem hsome
    obtain ⟨id', hid'⟩ := Option.isSome_iff_exists.mp hsome
    exact hmax domain' id' (mem_ancestors_iff.mp hmem) ((h.suffix domain' id').mp hid')

theorem regexTier_iff (h : r.regex = t.regex) :
    r.regexTier name = some id ↔ t.FirstRegex name id := by
  rw [regexTier, h, Option.map_eq_some_iff]
  constructor
  · rintro ⟨route, hfind, rfl⟩
    obtain ⟨hmatch, before, after, hsplit, hbefore⟩ := List.find?_eq_some_iff_append.mp hfind
    exact ⟨before, route, after, hsplit, by simpa using hbefore, hmatch, rfl⟩
  · rintro ⟨before, route, after, hsplit, hbefore, hmatch, rfl⟩
    refine ⟨route, List.find?_eq_some_iff_append.mpr ⟨hmatch, before, after, hsplit, ?_⟩, rfl⟩
    simpa using hbefore

theorem matchHost_eq_iff_resolves (h : build regexNew patterns default regexes = .ok r)
    (host : Str) (o : Option RouteId) :
    r.matchHost host = o ↔
      (tableOf regexNew regexes patterns default).Resolves (normalize host) o := by
  obtain ⟨hbuilt, hdefault⟩ := built_of_build h
  by_cases hempty : normalize host = []
  · rw [matchHost, if_pos hempty, Table.Resolves, if_pos hempty, hdefault, eq_comm]
    rfl
  · rw [matchHost_eq_foldr hempty, Table.Resolves, if_neg hempty, hdefault]
    refine firstTier_iff (.cons ?_ (.cons ?_ (.cons ?_ (.cons ?_ .nil))))
    · exact fun id ↦ hbuilt.exact _ id
    · exact fun id ↦ wildcard_iff hbuilt
    · exact fun id ↦ suffixWalk_iff hbuilt
    · exact fun id ↦ regexTier_iff hbuilt.regex

end Resolves

/-! ## Accepted tables -/

/-- A pattern that is the key of a lookup map. -/
def Pattern.IsKey : Pattern → Prop
  | .empty | .regexRef _ | .inlineRegex => False
  | .wildcard _ | .suffix _ | .exact _ => True

/-- The entries that a router can be built from: no regular expression is written inline, each
reference names one that compiles, and no key is listed twice. -/
structure Acceptable (regexNew : RegexNew) (regexes : Map Str RegexDef)
    (es : List (Str × RouteId)) : Prop where
  noInline : ∀ e ∈ es, Pattern.of e.1 ≠ .inlineRegex
  compiles : ∀ e ∈ es, ∀ name, Pattern.of e.1 = .regexRef name →
    (regexRoute regexNew regexes e.2 name).isOk
  unique : es.Pairwise fun e e' ↦ (Pattern.of e.1).IsKey → Pattern.of e.1 ≠ Pattern.of e'.1

section Acceptable

variable {regexNew : RegexNew} {regexes : Map Str RegexDef} {es rest : List (Str × RouteId)}
  {patterns : List (List Str)} {default : Option RouteId} {r r' : Router} {e : Str × RouteId}
  {kind : Str → Pattern} {key : Str} {m : Map Str RouteId} {id : RouteId}

theorem insertUnique_isOk {pat : Str} :
    (insertUnique m key id pat).isOk ↔ ∀ id, m.lookup key ≠ some id := by
  rw [insertUnique, ← Option.eq_none_iff_forall_ne_some, AList.lookup_eq_none]
  split_ifs with hmem
  · simp [hmem, refuse, Except.isOk, Except.toBool]
  · simp [hmem, Except.isOk, Except.toBool]

theorem forall_not_keyIn : (∀ id, ¬KeyIn es kind key id) ↔ ∀ e ∈ es, Pattern.of e.1 ≠ kind key := by
  constructor
  · exact fun h e he heq ↦ h e.2 ⟨e, he, heq, rfl⟩
  · rintro h id ⟨e, he, heq, -⟩
    exact h e he heq

theorem isOk_bind_ok {α β : Type} {x : Except ConfigError α} {f : α → β} :
    (x >>= fun a ↦ (.ok (f a) : Except ConfigError β)).isOk = x.isOk := by
  cases x <;> rfl

/-- An entry is added when it is not inline, its reference compiles and its key is new. -/
theorem addPattern_isOk (h : Built regexNew regexes es r) :
    (addPattern regexNew regexes r e).isOk ↔
      Pattern.of e.1 ≠ .inlineRegex ∧
      (∀ name, Pattern.of e.1 = .regexRef name → (regexRoute regexNew regexes e.2 name).isOk) ∧
      ((Pattern.of e.1).IsKey → ∀ e' ∈ es, Pattern.of e'.1 ≠ Pattern.of e.1) := by
  obtain ⟨pat, id⟩ := e
  rw [addPattern]
  cases hpat : Pattern.of pat with
  | empty => simp [Pattern.IsKey, Except.isOk, Except.toBool]
  | regexRef name => simp [Pattern.IsKey, isOk_bind_ok, pure, Except.pure]
  | inlineRegex => simp [refuse, Except.isOk, Except.toBool]
  | wildcard parent =>
    simp [Pattern.IsKey, isOk_bind_ok, pure, Except.pure, insertUnique_isOk, h.wildcard,
      forall_not_keyIn]
  | suffix domain =>
    simp [Pattern.IsKey, isOk_bind_ok, pure, Except.pure, insertUnique_isOk, h.suffix,
      forall_not_keyIn]
  | exact host =>
    simp [Pattern.IsKey, isOk_bind_ok, pure, Except.pure, insertUnique_isOk, h.exact,
      forall_not_keyIn]

theorem acceptable_append_singleton :
    Acceptable regexNew regexes (es ++ [e]) ↔ Acceptable regexNew regexes es ∧
      Pattern.of e.1 ≠ .inlineRegex ∧
      (∀ name, Pattern.of e.1 = .regexRef name → (regexRoute regexNew regexes e.2 name).isOk) ∧
      ((Pattern.of e.1).IsKey → ∀ e' ∈ es, Pattern.of e'.1 ≠ Pattern.of e.1) := by
  have hlast : e ∈ es ++ [e] := List.mem_append_right _ (List.mem_singleton_self _)
  constructor
  · rintro ⟨hinline, hcompiles, hunique⟩
    rw [List.pairwise_append] at hunique
    obtain ⟨hunique, -, hnew⟩ := hunique
    refine ⟨⟨fun e' he' ↦ hinline e' (List.mem_append_left _ he'),
      fun e' he' ↦ hcompiles e' (List.mem_append_left _ he'), hunique⟩,
      hinline e hlast, hcompiles e hlast, fun hkey e' he' heq ↦ ?_⟩
    exact hnew e' he' e (List.mem_singleton_self _) (heq ▸ hkey) heq
  · rintro ⟨⟨hinline, hcompiles, hunique⟩, hinline', hcompiles', hnew⟩
    refine ⟨fun e' he' ↦ ?_, fun e' he' ↦ ?_, ?_⟩
    · rcases List.mem_append.mp he' with he' | he'
      · exact hinline e' he'
      · rwa [List.mem_singleton.mp he']
    · rcases List.mem_append.mp he' with he' | he'
      · exact hcompiles e' he'
      · rwa [List.mem_singleton.mp he']
    · refine List.pairwise_append.mpr ⟨hunique, List.pairwise_singleton _ _, ?_⟩
      intro e' he' e'' he'' hkey heq
      rw [List.mem_singleton.mp he''] at heq
      exact hnew (heq ▸ hkey) e' he' heq

theorem acceptable_of_append (h : Acceptable regexNew regexes (es ++ rest)) :
    Acceptable regexNew regexes es where
  noInline e he := h.noInline e (List.mem_append_left _ he)
  compiles e he := h.compiles e (List.mem_append_left _ he)
  unique := (List.pairwise_append.mp h.unique).1

/-- **Acceptance.** A router is built from the acceptable tables. -/
theorem build_isOk_iff :
    (build regexNew patterns default regexes).isOk ↔
      Acceptable regexNew regexes (entries patterns) := by
  have hfold : ∀ (rest done : List (Str × RouteId)) (s : Router),
      Built regexNew regexes done s → Acceptable regexNew regexes done →
      ((rest.foldlM (addPattern regexNew regexes) s).isOk ↔
        Acceptable regexNew regexes (done ++ rest)) := by
    intro rest
    induction rest with
    | nil =>
      intro done s _ hdone
      rw [List.append_nil]
      exact ⟨fun _ ↦ hdone, fun _ ↦ rfl⟩
    | cons e rest ih =>
      intro done s hs hdone
      have hstep := (acceptable_append_singleton (e := e)).trans
        (and_congr_right fun _ ↦ (addPattern_isOk hs).symm)
      have hsplit : done ++ e :: rest = done ++ [e] ++ rest := by simp
      rw [List.foldlM_cons, hsplit]
      cases hadd : addPattern regexNew regexes s e with
      | error err =>
        -- what follows does not make up for an entry that is refused
        refine iff_of_false (by simp [bind, Except.bind, Except.isOk, Except.toBool]) fun hall ↦ ?_
        have hfront := hstep.mp (acceptable_of_append hall)
        rw [hadd] at hfront
        exact absurd hfront.2 (by simp [Except.isOk, Except.toBool])
      | ok s' =>
        refine ih (done ++ [e]) s' (built_addPattern hs hadd).1 (hstep.mpr ⟨hdone, ?_⟩)
        rw [hadd]
        rfl
  refine hfold (entries patterns) [] _ ⟨?_, ?_, ?_, rfl⟩ ⟨by simp, by simp, .nil⟩ <;>
    exact fun k id ↦ ⟨fun h ↦ absurd h (by simp), fun h ↦ absurd h not_keyIn_nil⟩

end Acceptable

/-! ## Other orders -/

/-- An entry of a route that has another name. -/
def rename (σ : RouteId → RouteId) (e : Str × RouteId) : Str × RouteId := (e.1, σ e.2)

/-- A regex route that has another name. -/
def renameRegex (σ : RouteId → RouteId) (route : RegexRoute) : RegexRoute :=
  { route with routeId := σ route.routeId }

/-- Whether an entry refers to a regular expression. -/
def isReference (e : Str × RouteId) : Bool :=
  match Pattern.of e.1 with
  | .regexRef _ => true
  | _ => false

/-- `es'` lists the entries of `es` in another order, and names the routes by `σ`; the references to
regular expressions keep their order. -/
structure Reordered (σ : RouteId → RouteId) (es es' : List (Str × RouteId)) : Prop where
  perm : es'.Perm (es.map (rename σ))
  references : es'.filter isReference = (es.map (rename σ)).filter isReference

section Reordered

variable {regexNew : RegexNew} {regexes : Map Str RegexDef} {es es' : List (Str × RouteId)}
  {σ : RouteId → RouteId} {e : Str × RouteId} {kind : Str → Pattern} {key name : Str}
  {id j : RouteId} {t t' : Table} {o : Option RouteId}

theorem Reordered.keyIn_iff (h : Reordered σ es es') :
    KeyIn es' kind key j ↔ ∃ i, σ i = j ∧ KeyIn es kind key i := by
  constructor
  · rintro ⟨e', he', hpat, rfl⟩
    obtain ⟨e, he, rfl⟩ := List.mem_map.mp (h.perm.mem_iff.mp he')
    exact ⟨e.2, rfl, e, he, hpat, rfl⟩
  · rintro ⟨i, rfl, e, he, hpat, rfl⟩
    exact ⟨rename σ e, h.perm.mem_iff.mpr (List.mem_map_of_mem he), hpat, rfl⟩

/-- A reference stands for the same regular expression whatever the name of the route. -/
theorem toOption_regexRoute : (regexRoute regexNew regexes (σ id) name).toOption =
    (regexRoute regexNew regexes id name).toOption.map (renameRegex σ) := by
  rw [regexRoute, regexRoute]
  cases regexes.lookup name with
  | none => rfl
  | some d =>
    dsimp only
    cases regexNew d.pattern <;> rfl

theorem entryRegex_rename :
    entryRegex regexNew regexes (rename σ e) =
      (entryRegex regexNew regexes e).map (renameRegex σ) := by
  have hpat : Pattern.of (rename σ e).1 = Pattern.of e.1 := rfl
  rw [entryRegex, entryRegex, hpat]
  cases Pattern.of e.1 with
  | regexRef name => exact toOption_regexRoute
  | _ => rfl

theorem filterMap_entryRegex : es.filterMap (entryRegex regexNew regexes) =
    (es.filter isReference).filterMap (entryRegex regexNew regexes) := by
  rw [List.filterMap_filter]
  refine List.filterMap_congr fun e _ ↦ ?_
  rw [entryRegex, isReference]
  cases Pattern.of e.1 <;> rfl

theorem Reordered.regex (h : Reordered σ es es') : es'.filterMap (entryRegex regexNew regexes) =
    (es.filterMap (entryRegex regexNew regexes)).map (renameRegex σ) := by
  rw [filterMap_entryRegex, h.references, ← filterMap_entryRegex, List.filterMap_map,
    List.map_filterMap]
  exact List.filterMap_congr fun e _ ↦ entryRegex_rename

theorem isOk_iff_toOption {α β : Type} {x : Except α β} : x.isOk ↔ x.toOption.isSome := by
  cases x <;> exact Iff.rfl

theorem Reordered.acceptable (h : Reordered σ es es') (hes : Acceptable regexNew regexes es) :
    Acceptable regexNew regexes es' where
  noInline e' he' := by
    obtain ⟨e, he, rfl⟩ := List.mem_map.mp (h.perm.mem_iff.mp he')
    exact hes.noInline e he
  compiles e' he' name hpat := by
    obtain ⟨e, he, rfl⟩ := List.mem_map.mp (h.perm.mem_iff.mp he')
    have hok := hes.compiles e he name hpat
    rw [isOk_iff_toOption] at hok ⊢
    rw [rename, toOption_regexRoute, Option.isSome_map]
    exact hok
  unique := by
    refine (h.perm.pairwise_iff fun {e e'} hne hkey heq ↦ ?_).mpr (List.pairwise_map.mpr hes.unique)
    exact hne (heq ▸ hkey) heq.symm

/-- A table that is listed in another order says the same, up to the names of the routes. -/
theorem Table.Resolves.reordered (hentries : Reordered σ t.entries t'.entries)
    (hregex : t'.regex = t.regex.map (renameRegex σ)) (hdefault : t'.default = t.default.map σ)
    (h : t.Resolves name o) : t'.Resolves name (o.map σ) := by
  rw [Table.Resolves] at h ⊢
  by_cases hname : name = []
  · rw [if_pos hname] at h ⊢
    rw [h, hdefault]
  rw [if_neg hname] at h ⊢
  rw [hdefault]
  refine h.map σ (.cons (fun j ↦ hentries.keyIn_iff) (.cons (fun j ↦ ?_) (.cons (fun j ↦ ?_)
    (.cons (fun j ↦ ?_) .nil))))
  · constructor
    · rintro ⟨l, parent, hsplit, hdot, hkey⟩
      obtain ⟨i, hi, hkey⟩ := hentries.keyIn_iff.mp hkey
      exact ⟨i, hi, l, parent, hsplit, hdot, hkey⟩
    · rintro ⟨i, hi, l, parent, hsplit, hdot, hkey⟩
      exact ⟨l, parent, hsplit, hdot, hentries.keyIn_iff.mpr ⟨i, hi, hkey⟩⟩
  · constructor
    · rintro ⟨domain, hin, hkey, hmax⟩
      obtain ⟨i, hi, hkey⟩ := hentries.keyIn_iff.mp hkey
      exact ⟨i, hi, domain, hin, hkey, fun domain' id' hin' hkey' ↦
        hmax domain' (σ id') hin' (hentries.keyIn_iff.mpr ⟨id', rfl, hkey'⟩)⟩
    · rintro ⟨i, hi, domain, hin, hkey, hmax⟩
      refine ⟨domain, hin, hentries.keyIn_iff.mpr ⟨i, hi, hkey⟩, fun domain' id' hin' hkey' ↦ ?_⟩
      obtain ⟨i', -, hkey'⟩ := hentries.keyIn_iff.mp hkey'
      exact hmax domain' i' hin' hkey'
  · rw [Table.FirstRegex, hregex]
    constructor
    · rintro ⟨before, route, after, hsplit, hbefore, hmatch, rfl⟩
      obtain ⟨before', rest, hrest, rfl, hcons⟩ := List.map_eq_append_iff.mp hsplit
      obtain ⟨route', after', rfl, rfl, rfl⟩ := List.map_eq_cons_iff.mp hcons
      refine ⟨route'.routeId, rfl, before', route', after', hrest, fun earlier hmem ↦ ?_, hmatch,
        rfl⟩
      exact hbefore (renameRegex σ earlier) (List.mem_map_of_mem hmem)
    · rintro ⟨i, rfl, before, route, after, hsplit, hbefore, hmatch, rfl⟩
      refine ⟨before.map (renameRegex σ), renameRegex σ route, after.map (renameRegex σ), ?_,
        fun earlier hmem ↦ ?_, hmatch, rfl⟩
      · rw [hsplit, List.map_append, List.map_cons]
      · obtain ⟨earlier', hmem', rfl⟩ := List.mem_map.mp hmem
        exact hbefore earlier' hmem'

end Reordered

/-! ## What does not matter in a host -/

section Hosts

variable {s : Str}

theorem trim_asciiLowercase : trim (asciiLowercase s) = asciiLowercase (trim s) := by
  have hcomp : isWhitespace ∘ Char.toLower = isWhitespace := funext fun c ↦ isWhitespace_toLower
  rw [trim, trim, asciiLowercase, asciiLowercase, List.dropWhile_map, hcomp, List.rdropWhile,
    List.rdropWhile, ← List.map_reverse, List.dropWhile_map, hcomp, List.map_reverse]

theorem normalize_asciiLowercase : normalize (asciiLowercase s) = normalize s := by
  have hhead : (asciiLowercase (trim s)).head? = some '[' ↔ (trim s).head? = some '[' := by
    rw [asciiLowercase, List.head?_map]
    cases (trim s).head? with
    | none => exact Iff.rfl
    | some c =>
      rw [Option.map_some, Option.some_inj, Option.some_inj]
      exact toLower_eq_iff (by decide)
  have hcolon : (asciiLowercase (trim s)).takeWhile (· ≠ ':') =
      asciiLowercase ((trim s).takeWhile (· ≠ ':')) := by
    rw [asciiLowercase, List.takeWhile_map]
    congr 2
    funext c
    exact decide_eq_decide.mpr (not_congr (toLower_eq_iff (by decide)))
  rw [normalize, normalize, trim_asciiLowercase, hcolon]
  simp only [hhead]
  split_ifs <;> rw [trimEndMatches_asciiLowercase, asciiLowercase_idem]

theorem normalize_append_dot (h : IsHostName s) : normalize (s ++ ['.']) = normalize s := by
  have hdot : IsHostName (s ++ ['.']) := by
    intro c hc
    rcases List.mem_append.mp hc with hc | hc
    · exact h c hc
    · rw [List.mem_singleton.mp hc]
      rfl
  rw [normalize_of_isHostName hdot, normalize_of_isHostName h, trimEndMatches,
    List.rdropWhile_concat_pos _ _ _ (by simp)]
  rfl

theorem normalize_append_port (h : IsHostName s) (port : Str) :
    normalize (s ++ ':' :: port) = normalize s := by
  have hcolon : ':' ∉ s := fun hmem ↦ absurd (h _ hmem) (by decide)
  have hstart : s.dropWhile isWhitespace = s := by
    refine List.dropWhile_eq_self_iff.mpr fun hl ↦ ?_
    simp [not_isWhitespace_of_isHostChar (h _ (List.getElem_mem hl))]
  have hbracket : s.head? ≠ some '[' := fun hs ↦
    absurd (h _ (List.mem_of_head? hs)) (by decide)
  rw [normalize_oneColon hcolon, normalize_of_isHostName h, hstart]
  exact if_neg hbracket

end Hosts

/-- **Precedence.** A router that was built resolves every host as its table says, resolves alike
when the table is listed in another order, and does not tell apart hosts that differ in case, in a
dot at the end of a host name, or in a port after it. -/
theorem matchHost_precedence {regexNew : RegexNew} {regexes : Map Str RegexDef}
    {patterns : List (List Str)} {default : Option RouteId} {r : Router}
    (h : build regexNew patterns default regexes = .ok r) :
    (∀ host o, r.matchHost host = o ↔
      (tableOf regexNew regexes patterns default).Resolves (normalize host) o) ∧
    (∀ σ patterns', Reordered σ (entries patterns) (entries patterns') →
      ∃ r', build regexNew patterns' (default.map σ) regexes = .ok r' ∧
        ∀ host, r'.matchHost host = (r.matchHost host).map σ) ∧
    (∀ s t, asciiLowercase s = asciiLowercase t → r.matchHost s = r.matchHost t) ∧
    (∀ s, IsHostName s → r.matchHost (s ++ ['.']) = r.matchHost s ∧
      ∀ port, r.matchHost (s ++ ':' :: port) = r.matchHost s) := by
  refine ⟨matchHost_eq_iff_resolves h, fun σ patterns' hσ ↦ ?_, fun s t hst ↦ ?_, fun s hs ↦ ?_⟩
  · have hok : (build regexNew patterns' (default.map σ) regexes).isOk :=
      build_isOk_iff.mpr (hσ.acceptable (build_isOk_iff.mp (by rw [h]; rfl)))
    cases hbuild : build regexNew patterns' (default.map σ) regexes with
    | error e => rw [hbuild] at hok; exact absurd hok nofun
    | ok r' =>
      refine ⟨r', rfl, fun host ↦ (matchHost_eq_iff_resolves hbuild host _).mpr ?_⟩
      refine ((matchHost_eq_iff_resolves h host _).mp rfl).reordered hσ ?_ rfl
      exact hσ.regex
  · rw [matchHost, matchHost, ← normalize_asciiLowercase, hst, normalize_asciiLowercase]
  · constructor
    · rw [matchHost, matchHost, normalize_append_dot hs]
    · intro port
      rw [matchHost, matchHost, normalize_append_port hs]

/-- With the routes for `.test`, `*.a.test` and for a regular expression listed the other way round,
`B.a.test:443` still goes to the route of the wildcard. -/
theorem matchHost_reordered :
    ∃ r', build (fun _ ↦ .ok fun _ ↦ true) [["@x".toList], ["*.a.test".toList, ".test".toList]]
        none ((∅ : Map Str RegexDef).insert "x".toList ⟨[], []⟩) = .ok r' ∧
      r'.matchHost "B.a.test:443".toList = some 1 := by
  have hbuild : build (fun _ ↦ .ok fun _ ↦ true)
      [[".test".toList, "*.a.test".toList], ["@x".toList]] none
      ((∅ : Map Str RegexDef).insert "x".toList ⟨[], []⟩) = .ok
        { exact := ∅
          wildcard := (∅ : Map Str RouteId).insert "a.test".toList 0
          suffix := (∅ : Map Str RouteId).insert "test".toList 0
          regex := [⟨fun _ ↦ true, 1, []⟩]
          default := none } := by rfl
  obtain ⟨r', hr', hhost⟩ := (matchHost_precedence hbuild).2.1 (fun id ↦ 1 - id)
    [["@x".toList], ["*.a.test".toList, ".test".toList]]
    ⟨by decide +kernel, by decide +kernel⟩
  refine ⟨r', hr', (hhost _).trans ?_⟩
  decide +kernel

end Router

end SniGate
