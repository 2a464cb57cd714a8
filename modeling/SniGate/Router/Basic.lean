import SniGate.Collections.Map
import SniGate.Config.Error
import Mathlib.Data.Char
import Mathlib.Data.List.Lex
import Mathlib.Data.List.Sort

/-!
# The router

Patterns are compiled once into lookup maps and a list of regular expressions. A host is resolved by
a fixed precedence: exact name, wildcard, suffix, regular expression, default route. For a wildcard
that a certificate would carry, `wildcardConfined` decides whether every host it covers resolves to
a route of one certificate scope.

The regular expression engine is given: `RegexNew` compiles a pattern, or says why it cannot.

## Walking up a name

The suffix tier looks a host up, then its parent, and so on. `ancestors` is the list of the names
this visits.
-/

namespace SniGate

/-- Index into the route table. -/
abbrev RouteId := ℕ

/-- `Regex::new`: the compiled expression, or an error text. -/
abbrev RegexNew := Str → Except Str (Str → Bool)

/-- A named regular expression, with the domain suffixes it is declared to match. -/
structure RegexDef where
  pattern : Str
  scopeSuffix : List Str
deriving DecidableEq, Repr

/-- A compiled regex route with its scope information. -/
structure RegexRoute where
  pattern : Str → Bool
  routeId : RouteId
  /-- The normalized scope suffixes declared for this regex. -/
  scopeSuffix : List Str

/-- A compiled router. -/
structure Router where
  exact : Map Str RouteId
  /-- Keyed by the parent domain: `*.example.com` is at `example.com`. -/
  wildcard : Map Str RouteId
  /-- Keyed by the domain: `.example.com` is at `example.com`. -/
  suffix : Map Str RouteId
  regex : List RegexRoute
  default : Option RouteId

namespace Router

/-! ## Names -/

/-- Normalize a host for matching: lowercase, without surrounding whitespace, a port, or trailing
dots. -/
def normalize (host : Str) : Str :=
  let host := trim host
  let host := if host.head? = some '[' then host else host.takeWhile (· ≠ ':')
  asciiLowercase (trimEndMatches '.' host)

/-- Normalize a scope suffix; the start that says what kind of pattern it is stays. -/
def normalizeScopeSuffix (scope : Str) : Str :=
  let scope := trim scope
  match stripStart "*.".toList scope with
  | some rest => "*.".toList ++ normalize rest
  | none =>
    match stripStart ['.'] scope with
    | some rest => '.' :: normalize rest
    | none => normalize scope

/-- The single label of `key` directly above `parent`, if it is exactly one label above it. -/
def oneLabelAbove (key parent : Str) : Option Str :=
  match (stripEnd parent key).bind (stripEnd ['.']) with
  | some left => if left = [] ∨ '.' ∈ left then none else some left
  | none => none

/-- Whether `candidate` is `suffix` or a subdomain of it. -/
def isSuffixOfOrEqual (candidate suffix : Str) : Bool :=
  candidate = suffix ∨ ('.' :: suffix) <:+ candidate

/-- Whether a declared scope could match some host that the wildcard `*.parent` covers. -/
def matchScopePattern (scope parent : Str) : Bool :=
  match stripStart "*.".toList scope with
  | some suffix => parent = suffix
  | none =>
    match stripStart ['.'] scope with
    | some suffix => isSuffixOfOrEqual parent suffix ∨ (oneLabelAbove suffix parent).isSome
    | none => (oneLabelAbove scope parent).isSome

/-- What follows each dot of a name. -/
def parents : Str → List Str
  | [] => []
  | c :: rest => if c = '.' then rest :: parents rest else parents rest

/-- The names the suffix walk visits, from `name` on: each next one is what follows the first dot of
the one before. -/
def ancestors (name : Str) : List Str := name :: parents name

/-! ## Building -/

/-- What kind of pattern a trimmed entry is. -/
inductive Pattern
  | empty
  /-- `@name`. -/
  | regexRef (name : Str)
  /-- `~pattern`, which is refused. -/
  | inlineRegex
  | wildcard (parent : Str)
  | suffix (domain : Str)
  | exact (host : Str)
deriving DecidableEq, Repr

/-- The kind of a `match_sni` entry, with the key it is stored under. -/
def Pattern.of (pat : Str) : Pattern :=
  let pat := trim pat
  if pat = [] then .empty
  else
    match stripStart ['@'] pat with
    | some name => .regexRef name
    | none =>
      if pat.head? = some '~' then .inlineRegex
      else
        match stripStart "*.".toList pat with
        | some rest => .wildcard (normalize rest)
        | none =>
          match stripStart ['.'] pat with
          | some rest => .suffix (normalize rest)
          | none => .exact (normalize pat)

/-- Insert a key that must be new. -/
def insertUnique (map : Map Str RouteId) (key : Str) (id : RouteId) (pat : Str) :
    Except ConfigError (Map Str RouteId) :=
  if key ∈ map then
    refuse ["duplicate match pattern \x60".toList, pat, "\x60 maps to more than one route".toList]
  else .ok (map.insert key id)

/-- Compile the regex route that a reference stands for. -/
def regexRoute (regexNew : RegexNew) (regexes : Map Str RegexDef) (id : RouteId) (name : Str) :
    Except ConfigError RegexRoute :=
  match regexes.lookup name with
  | none =>
    refuse ["route ".toList, decimal id, ": unknown regex ".toList, debugStr name,
      " (no [regexes.".toList, name, "])".toList]
  | some d =>
    match regexNew d.pattern with
    | .error e => refuse ["[regexes.".toList, name, "]: invalid pattern: ".toList, e]
    | .ok pattern =>
      .ok { pattern, routeId := id, scopeSuffix := d.scopeSuffix.map normalizeScopeSuffix }

/-- Add one entry of a route to the router built so far. -/
def addPattern (regexNew : RegexNew) (regexes : Map Str RegexDef) (r : Router)
    (entry : Str × RouteId) : Except ConfigError Router :=
  let (pat, id) := entry
  match Pattern.of pat with
  | .empty => .ok r
  | .regexRef name => do
    let route ← regexRoute regexNew regexes id name
    return { r with regex := r.regex ++ [route] }
  | .inlineRegex =>
    refuse ["route ".toList, decimal id, ": inline regex ".toList, debugStr (trim pat),
      " is no longer supported; define it in [regexes.<name>] with a scope_suffix, then ".toList,
        "reference it as @<name>".toList]
  | .wildcard parent => do
    let wildcard ← insertUnique r.wildcard parent id (trim pat)
    return { r with wildcard }
  | .suffix domain => do
    let suffix ← insertUnique r.suffix domain id (trim pat)
    return { r with suffix }
  | .exact host => do
    let exact ← insertUnique r.exact host id (trim pat)
    return { r with exact }

/-- Every entry of every route, with the route's id. -/
def entries (patterns : List (List Str)) : List (Str × RouteId) :=
  patterns.zipIdx.flatMap fun p ↦ p.1.map fun pat ↦ (pat, p.2)

/-- Build a router from each route's patterns. -/
def build (regexNew : RegexNew) (patterns : List (List Str)) (default : Option RouteId)
    (regexes : Map Str RegexDef) : Except ConfigError Router :=
  (entries patterns).foldlM (addPattern regexNew regexes)
    { exact := ∅, wildcard := ∅, suffix := ∅, regex := [], default }

/-! ## Resolving -/

/-- The nearest entry of the suffix tier. -/
def suffixWalk (r : Router) (name : Str) : Option RouteId :=
  (ancestors name).findSome? r.suffix.lookup

/-- The first regex route that matches. -/
def regexTier (r : Router) (host : Str) : Option RouteId :=
  (r.regex.find? fun route ↦ route.pattern host).map RegexRoute.routeId

/-- Resolve a host to a route id following the precedence order. -/
def matchHost (r : Router) (host : Str) : Option RouteId :=
  let host := normalize host
  if host = [] then r.default
  else
    match r.exact.lookup host with
    | some id => some id
    | none =>
      match (splitOnce '.' host).bind fun p ↦ r.wildcard.lookup p.2 with
      | some id => some id
      | none =>
        match r.suffixWalk host with
        | some id => some id
        | none =>
          match r.regexTier host with
          | some id => some id
          | none => r.default

/-- Why a wildcard is not confined to one certificate scope. -/
inductive Escape
  /-- A concrete host routes to a different scope. -/
  | host (host : Str) (route : RouteId)
  /-- An out-of-scope regex may match a host under the wildcard. -/
  | regexTier (route : RouteId)
  /-- Hosts under the wildcard reach the default route, in a different scope. -/
  | defaultRoute (route : RouteId)
  /-- Hosts under the wildcard match no route at all. -/
  | unmatched
deriving DecidableEq, Repr

/-- What is wrong with one host, if anything. -/
def hostEscape (r : Router) (inScope : RouteId → Bool) (host : Str) : Option Escape :=
  match r.matchHost host with
  | some id => if inScope id then none else some (.host host id)
  | none => some .unmatched

/-- The keys of the exact and suffix tiers exactly one label above `parent`, in order. -/
def named (r : Router) (parent : Str) : List Str :=
  ((r.exact.keys ++ r.suffix.keys).filter fun k ↦ (oneLabelAbove k parent).isSome).insertionSort
    (· ≤ ·)

/-- The verdict once neither the wildcard nor the suffix tier decides: the default route first, then
every out-of-scope regex whose declared scope overlaps. -/
def fallthroughConfined (r : Router) (parent : Str) (inScope : RouteId → Bool) :
    Except Escape Unit :=
  match r.default with
  | none => .error .unmatched
  | some id =>
    if !inScope id then .error (.defaultRoute id)
    else
      match r.regex.find? fun route ↦ !inScope route.routeId ∧
          route.scopeSuffix.any fun scope ↦ matchScopePattern scope parent with
      | some route => .error (.regexTier route.routeId)
      | none => .ok ()

/-- The generic verdict, shared by every host under the wildcard that no pattern names. -/
def genericVerdict (r : Router) (parent : Str) (inScope : RouteId → Bool) : Except Escape Unit :=
  match r.wildcard.lookup parent with
  | some id => if inScope id then .ok () else .error (.host ("*.".toList ++ parent) id)
  | none =>
    -- the walk starts at the parent: a host one label above it is a named one
    match (ancestors parent).findSome? fun cur ↦ (r.suffix.lookup cur).map fun id ↦ (cur, id) with
    | some (cur, id) => if inScope id then .ok () else .error (.host ('.' :: cur) id)
    | none => r.fallthroughConfined parent inScope

/-- Whether every host that `*.parent` covers routes into the caller's certificate scope. -/
def wildcardConfined (r : Router) (parent : Str) (inScope : RouteId → Bool) :
    Except Escape Unit :=
  let parent := normalize parent
  match (r.named parent).findSome? (r.hostEscape inScope) with
  | some escape => .error escape
  | none => r.genericVerdict parent inScope

/-- Whether an exact name routes into the caller's certificate scope. -/
def nameConfined (r : Router) (name : Str) (inScope : RouteId → Bool) : Except Escape Unit :=
  match r.matchHost name with
  | some id => if inScope id then .ok () else .error (.host (normalize name) id)
  | none => .error .unmatched

end Router

end SniGate
