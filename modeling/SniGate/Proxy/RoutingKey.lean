import SniGate.Config.Upstream
import SniGate.Peek.Classify
import SniGate.Resolver.Basic
import SniGate.Router.NormalForm

/-!
# The routing key

A connection is routed by its key, the SNI or the Host value as it came. What is dialed, what name
the upstream has to prove, and under which host its certificate is recorded, is the key without a
port. Routing strips a port as well, with code of its own: `Router.normalize` and `stripPort` are
two readings of one text.

## Where they agree

Both take off what follows a single colon. They disagree on a key that starts with a bracket, whose
brackets only one of them takes off, and around whitespace, which only one of them trims: before the
text is split at the colon, and so not at the end of what is left of it. `StripsAlike` describes the
keys on which no router can tell them apart.
-/

namespace SniGate

/-! ## What is made of a key -/

/-- Strip a trailing port from a routing key, returning the bare host. -/
def stripPort (host : Str) : Str :=
  match stripStart ['['] host with
  | some rest =>
    match splitOnce ']' rest with
    | some (inner, _) => inner
    | none => rest
  -- a bare IPv6 literal has no port to strip
  | none => if 1 < host.count ':' then host else host.takeWhile (· ≠ ':')

/-- The route a connection is dispatched to. -/
def dispatchRoute (router : Router) (inbound : Inbound) : Option RouteId :=
  match inbound.key with
  | some k => router.matchHost k
  | none => router.matchHost []

/-- The name an upstream certificate is verified against. -/
def SniPolicy.upstreamName (policy : SniPolicy) (key : Option Str) : Option Str :=
  match policy with
  | .fixed name => some name
  | .reflect | .omitted => key.map stripPort

/-- The host an upstream's certificate is recorded for: only a reflecting route asks the upstream
about the very name the connection is for. -/
def SniPolicy.observedName (policy : SniPolicy) (key : Option Str) : Option Str :=
  if policy = .reflect then policy.upstreamName key else none

/-- The two readings of a key agree: it does not start with a bracket, and if it has a single colon,
what stands before it, without leading whitespace, neither starts with a bracket nor ends in
whitespace. -/
def StripsAlike (k : Str) : Prop :=
  k.head? ≠ some '[' ∧
    (k.count ':' = 1 →
      let start := (k.takeWhile (· ≠ ':')).dropWhile isWhitespace
      start.head? ≠ some '[' ∧ start.rdropWhile isWhitespace = start)

instance : DecidablePred StripsAlike := fun _ ↦ inferInstanceAs (Decidable (_ ∧ (_ → _)))

/-! ## Where the readings agree -/

section Normal

variable {k s t rest tail : Str} {c : Char}

theorem stripPort_bracket : stripPort ('[' :: rest) <+: rest := by
  have hstart : stripStart ['['] ('[' :: rest) = some rest := stripStart_eq_some.mpr rfl
  rw [stripPort, hstart]
  dsimp only
  rw [splitOnce]
  cases rest.dropWhile (· ≠ ']') with
  | nil => exact List.prefix_rfl
  | cons c tail => exact List.takeWhile_prefix _

theorem stripPort_of_noBracket (hk : k.head? ≠ some '[') :
    stripPort k = if 1 < k.count ':' then k else k.takeWhile (· ≠ ':') := by
  have hstart : stripStart ['['] k = none := by
    rw [Option.eq_none_iff_forall_ne_some]
    intro rest hrest
    rw [← stripStart_eq_some.mp hrest] at hk
    exact hk rfl
  rw [stripPort, hstart]

theorem stripPort_of_count (hk : k.head? ≠ some '[') (hcount : k.count ':' ≠ 1) :
    stripPort k = k := by
  rw [stripPort_of_noBracket hk]
  split_ifs with hmany
  · rfl
  · have hnone : ':' ∉ k := List.count_eq_zero.mp (by omega)
    exact List.takeWhile_eq_self_iff.mpr fun c hc ↦ decide_eq_true fun heq ↦ hnone (heq ▸ hc)

theorem exists_of_count_eq_one (hcount : k.count ':' = 1) :
    ∃ tail, ':' ∉ k.takeWhile (· ≠ ':') ∧ k = k.takeWhile (· ≠ ':') ++ ':' :: tail := by
  have hnone : ':' ∉ k.takeWhile (· ≠ ':') := fun h ↦ by simpa using List.mem_takeWhile_imp h
  have hsplit := List.takeWhile_append_dropWhile (p := fun c ↦ decide (c ≠ ':')) (l := k)
  cases hrest : k.dropWhile (· ≠ ':') with
  | nil =>
    rw [hrest, List.append_nil] at hsplit
    rw [hsplit] at hnone
    rw [List.count_eq_zero.mpr hnone] at hcount
    exact absurd hcount (by omega)
  | cons c tail =>
    have hc := List.head?_dropWhile_not (fun c ↦ decide (c ≠ ':')) k
    rw [hrest] at hc
    obtain rfl : c = ':' := by simpa using hc
    exact ⟨tail, hnone, by rw [← hrest, hsplit]⟩

namespace Router

theorem normalize_ne_of_bracket :
    normalize ('[' :: rest) ≠ normalize (stripPort ('[' :: rest)) := by
  have hfix : ∀ d : Char, d.toLower = '[' ↔ d = '[' := fun d ↦ toLower_eq_iff (by decide)
  intro heq
  have hmore : (normalize ('[' :: rest)).count '[' = rest.count '[' + 1 := by
    rw [normalize_bracket, List.count_cons_self, count_asciiLowercase hfix, trimEndMatches,
      count_rdropWhile (by decide), count_rdropWhile (by decide)]
  have hless := count_normalize_le hfix (s := stripPort ('[' :: rest))
  have hsub : (stripPort ('[' :: rest)).count '[' ≤ rest.count '[' :=
    stripPort_bracket.sublist.count_le '['
  rw [heq] at hmore
  omega

theorem trimEndMatches_trim_eq_iff :
    asciiLowercase (trimEndMatches '.' t) =
        asciiLowercase (trimEndMatches '.' (t.rdropWhile isWhitespace)) ↔
      t.rdropWhile isWhitespace = t := by
  refine ⟨fun heq ↦ ?_, fun heq ↦ by rw [heq]⟩
  by_contra hne
  obtain ⟨hl, hlast⟩ : ∃ hl : t ≠ [], isWhitespace (t.getLast hl) := by
    simpa [List.rdropWhile_eq_self_iff] using hne
  -- a final whitespace is no dot, so all of `t` stays on the left
  have hself : trimEndMatches '.' t = t := by
    refine List.rdropWhile_eq_self_iff.mpr fun hl' hdot ↦ ?_
    rw [of_decide_eq_true hdot] at hlast
    exact absurd hlast (by decide)
  have hfront := List.rdropWhile_prefix isWhitespace t
  have hshort : (t.rdropWhile isWhitespace).length < t.length :=
    lt_of_le_of_ne hfront.length_le fun hlen ↦ hne (hfront.eq_of_length hlen)
  have hdots := (List.rdropWhile_prefix (· = '.') (t.rdropWhile isWhitespace)).length_le
  have hlen := congrArg List.length heq
  rw [hself, asciiLowercase, asciiLowercase, List.length_map, List.length_map, trimEndMatches]
    at hlen
  omega

/-- **The two readings of a key** agree exactly when nothing separates them. -/
theorem normalize_stripPort_iff : normalize k = normalize (stripPort k) ↔ StripsAlike k := by
  by_cases hbracket : k.head? = some '['
  · obtain ⟨rest, rfl⟩ := List.head?_eq_some_iff.mp hbracket
    exact ⟨fun heq ↦ absurd heq normalize_ne_of_bracket, fun h ↦ absurd hbracket h.1⟩
  by_cases hcount : k.count ':' = 1
  swap
  · rw [stripPort_of_count hbracket hcount]
    exact ⟨fun _ ↦ ⟨hbracket, fun h ↦ absurd h hcount⟩, fun _ ↦ rfl⟩
  obtain ⟨tail, hnone, hsplit⟩ := exists_of_count_eq_one hcount
  have hstrip : stripPort k = k.takeWhile (· ≠ ':') := by
    rw [stripPort_of_noBracket hbracket, if_neg (by omega)]
  have hleft : normalize (k.takeWhile (· ≠ ':') ++ ':' :: tail) = _ := normalize_oneColon hnone
  rw [← hsplit] at hleft
  rw [hleft, hstrip, normalize_of_noColon hnone, StripsAlike]
  dsimp only
  by_cases hstart : ((k.takeWhile (· ≠ ':')).dropWhile isWhitespace).head? = some '['
  · rw [if_pos hstart]
    refine ⟨fun heq ↦ ?_, fun h ↦ absurd hstart (h.2 hcount).1⟩
    -- the colon stays on the left, and there is none on the right
    have hfix : ∀ d : Char, d.toLower = ':' ↔ d = ':' := fun d ↦ toLower_eq_iff (by decide)
    have hright := count_normalize_le hfix (s := k.takeWhile (· ≠ ':'))
    rw [normalize_of_noColon hnone, ← heq, count_asciiLowercase hfix, List.count_append,
      List.count_cons_self, List.count_eq_zero.mpr hnone] at hright
    omega
  · rw [if_neg hstart, trim, trimEndMatches_trim_eq_iff]
    exact ⟨fun h ↦ ⟨hbracket, fun _ ↦ ⟨hstart, h⟩⟩, fun h ↦ (h.2 hcount).2⟩

/-- A router whose only pattern is a regular expression for one text. -/
def oneText (text : Str) : Router where
  exact := ∅
  wildcard := ∅
  suffix := ∅
  regex := [⟨fun host ↦ host = text, 0, []⟩]
  default := none

theorem build_oneText (text : Str) :
    build (fun _ ↦ .ok fun host ↦ host = text) [["@key".toList]] none
      ((∅ : Map Str RegexDef).insert "key".toList ⟨[], []⟩) = .ok (oneText text) := rfl

theorem matchHost_oneText {text host : Str} (htext : text ≠ []) :
    (oneText text).matchHost host = some 0 ↔ normalize host = text := by
  rw [matchHost]
  by_cases hempty : normalize host = []
  · rw [if_pos hempty, hempty]
    exact ⟨fun h ↦ absurd h (by simp [oneText]), fun h ↦ absurd h.symm htext⟩
  have hwalk : (oneText text).suffixWalk (normalize host) = none :=
    List.findSome?_eq_none_iff.mpr fun _ _ ↦ AList.lookup_empty _
  have hwildcard : ((splitOnce '.' (normalize host)).bind fun p ↦
      (oneText text).wildcard.lookup p.2) = none := by
    cases splitOnce '.' (normalize host) <;> rfl
  have hexact : (oneText text).exact.lookup (normalize host) = none := rfl
  rw [if_neg hempty, hexact, hwildcard, hwalk, regexTier]
  by_cases htext' : normalize host = text <;> simp [oneText, htext']

/-- A nonempty normal form is told from every other by some router. -/
theorem normalize_eq_of_matchHost_eq (hne : normalize s ≠ [])
    (h : (oneText (normalize s)).matchHost s = (oneText (normalize s)).matchHost t) :
    normalize s = normalize t := by
  have hs : (oneText (normalize s)).matchHost s = some 0 := (matchHost_oneText hne).mpr rfl
  rw [hs] at h
  exact ((matchHost_oneText hne).mp h.symm).symm

end Router

end Normal

/-! ## Routing and recording -/

/-- **One host, one route.** Every router routes a key and the key without its port alike exactly
when the two readings of the key agree. Then an observation is recorded under the scope of the route
that made it. -/
theorem matchHost_stripPort_iff {P : Type} (k : Str) :
    ((∀ regexNew patterns default regexes r,
        Router.build regexNew patterns default regexes = .ok r →
        r.matchHost k = r.matchHost (stripPort k)) ↔ StripsAlike k) ∧
      (StripsAlike k → ∀ (r : DynamicResolver P) (policy : SniPolicy) (inbound : Inbound)
        (name : Str), inbound.key = some k → policy.observedName inbound.key = some name →
        Issuer.recordKey r name = (dispatchRoute r.router inbound).bind fun owner ↦
          if (r.pinnedFor owner).isSome then none else some (Issuer.keyFor r name owner)) := by
  have hsame : StripsAlike k → ∀ r : Router, r.matchHost k = r.matchHost (stripPort k) := by
    intro h r
    rw [Router.matchHost, Router.matchHost, Router.normalize_stripPort_iff.mpr h]
  refine ⟨⟨fun h ↦ ?_, fun h _ _ _ _ r _ ↦ hsame h r⟩, fun h r policy inbound name hkey hname ↦ ?_⟩
  · apply Router.normalize_stripPort_iff.mp
    have hone : ∀ text, (Router.oneText text).matchHost k =
        (Router.oneText text).matchHost (stripPort k) := fun text ↦
      h _ _ _ _ _ (Router.build_oneText text)
    by_cases hempty : Router.normalize k = []
    · by_contra hne
      have hne' : Router.normalize (stripPort k) ≠ [] := fun h' ↦ hne (hempty.trans h'.symm)
      exact hne (Router.normalize_eq_of_matchHost_eq hne' (hone _).symm).symm
    · exact Router.normalize_eq_of_matchHost_eq hempty (hone _)
  · rw [SniPolicy.observedName] at hname
    split_ifs at hname with hreflect
    rw [hreflect, SniPolicy.upstreamName, hkey] at hname
    obtain rfl := Option.some.inj hname
    rw [Issuer.recordKey, dispatchRoute, hkey, ← hsame h]

/-- A pattern for a bracketed address routes the address as it came, and no route is found for what
is between the brackets. -/
theorem not_matchHost_stripPort : ¬∀ regexNew patterns default regexes r,
    Router.build regexNew patterns default regexes = .ok r →
    ∀ k, r.matchHost k = r.matchHost (stripPort k) := by
  intro h
  have hbuild : Router.build (fun _ ↦ .error []) [["[2001:db8::1]".toList]] none ∅ =
      .ok { exact := (∅ : Map Str RouteId).insert "[2001:db8::1]".toList 0, wildcard := ∅,
            suffix := ∅, regex := [], default := none } := by rfl
  have heq := h _ _ _ _ _ hbuild "[2001:db8::1]".toList
  revert heq
  decide +kernel

end SniGate
