import SniGate.Listener.Probes
import SniGate.Startup.Wiring

/-!
# Handles of the resolvers that were built

Probe targets are collected over handles, which keep of a resolver its label and what it was made
from, and compare where the program compares labels. Here the handles are those of the resolvers
that startup builds: whatever run of startup has built the declared resolvers, collecting finds for
every spec and every family the handle of the very resolver that routes and pools get there
(`handles_of_runs`).

## Design choices

Whether a declared resolver can be built is decided by the run, and collecting comes after it; so
over the registry of a run that ended well, collecting refuses none of them (`StartEnv.startup`).
Errors are compared as such and not by their texts, of which collecting keeps the outermost.
-/

namespace SniGate

variable {τ V C P : Type} {env : StartEnv τ V C} {doc : Document} {registry : Registry τ V}
  {handles : Map Str ResolverHandle}

/-- The handle of a resolver, where it is handed out for a family. -/
def BuiltResolver.handle (family : AddressFamily) : BuiltResolver τ V → ResolverHandle
  | inline label _ => ⟨label, .inline label family⟩
  | named label .. => ⟨label, .named label⟩

/-- What collecting takes from outside the document, once the declared resolvers are built. -/
def StartEnv.startup (env : StartEnv τ V C) (pools : Map Str (List (List Selector)))
    (loadPinned : Str → Str → Except Str P) : Startup V P where
  toSocketAddrs := env.toSocketAddrs
  buildInline spec family := (spec.build env family).map fun _ ↦ ()
  buildNamed _ _ := .ok ()
  pools
  getVerifier := env.getVerifier
  loadPinned

/-- The handles are those of the resolvers under the same names. -/
def HandlesOf (registry : Registry τ V) (handles : Map Str ResolverHandle) : Prop :=
  ∀ name family, handles.lookup name = (registry.lookup name).map (BuiltResolver.handle family)

/-- **One spec.** Over the handles of a registry a spec is found the handle of the resolver that it
is found over the registry. -/
theorem HandlesOf.getResolver (h : HandlesOf registry handles)
    (pools : Map Str (List (List Selector))) (loadPinned : Str → Str → Except Str P) (spec : Str)
    (family : AddressFamily) :
    (((env.startup pools loadPinned).env handles).getResolver spec family).toOption =
      (env.getResolver registry spec family).toOption.map (BuiltResolver.handle family) := by
  change (SniGate.getResolver handles env.toSocketAddrs _ spec family).toOption = _
  rw [SniGate.getResolver, StartEnv.getResolver, refName]
  by_cases href : isResolverRef spec
  · rw [if_pos href, if_pos href]
    cases stripStart ['@'] (trim spec) with
    | none => rfl
    | some name =>
      change (orError (handles.lookup name) _).toOption = _
      rw [h name family]
      cases hlookup : registry.lookup name with
      | none => simp only [hlookup]; rfl
      | some r => simp only [hlookup]; rfl
  · rw [if_neg href, if_neg href]
    cases ResolverSpec.parse env.toSocketAddrs spec with
    | error e => rfl
    | ok parsed =>
      change (((env.startup pools loadPinned).buildInline parsed family).mapError _ >>= _).toOption =
        ((parsed.build env family).mapError _ >>= _).toOption.map _
      have hinline : (env.startup pools loadPinned).buildInline parsed family =
        (parsed.build env family).map fun _ ↦ () := rfl
      rw [hinline]
      cases parsed.build env family with
      | error e => rfl
      | ok resolver => rfl

theorem lookup_of_buildNamedResolvers {build : Str → Map Str ResolverHandle → Except Str Unit}
    (hbuild : ∀ name handles, build name handles = .ok ()) (order : List Str) :
    ∃ handles', order.foldlM (buildNamedResolver build) handles = .ok handles' ∧
      ∀ name, handles'.lookup name =
        if name ∈ order then some ⟨name, .named name⟩ else handles.lookup name := by
  induction order generalizing handles with
  | nil => exact ⟨handles, rfl, fun name ↦ rfl⟩
  | cons first order ih =>
    obtain ⟨handles', hfold, hlookup⟩ := @ih (handles.insert first ⟨first, .named first⟩)
    have hone : buildNamedResolver build handles first =
        .ok (handles.insert first ⟨first, .named first⟩) := by
      rw [buildNamedResolver, hbuild]
      rfl
    refine ⟨handles', by rw [List.foldlM_cons, hone]; exact hfold, fun name ↦ ?_⟩
    rw [hlookup]
    by_cases hname : name = first
    · subst hname
      rw [AList.lookup_insert, if_pos List.mem_cons_self, ite_self]
    · rw [AList.lookup_insert_ne hname]
      simp [hname]

/-- **All specs of a document.** Over what a run of startup has built, collecting knows the same
declared resolvers, and finds for every spec the handle of the resolver that the spec stands for. -/
theorem handles_of_runs {es : List (Exchange (@StartOp.Answer (BuiltResolver τ V)))}
    (hruns : (env.buildNamedResolvers doc).Runs es (.done registry))
    (pools : Map Str (List (List Selector))) (loadPinned : Str → Str → Except Str P) :
    ∃ handles, buildNamedResolvers doc.cfg (env.startup pools loadPinned).buildNamed = .ok handles ∧
      ∀ spec family,
        (((env.startup pools loadPinned).env handles).getResolver spec family).toOption =
          (env.getResolver registry spec family).toOption.map (BuiltResolver.handle family) := by
  obtain ⟨order, horder, hwired, hkeys⟩ := registered_of_runs hruns
  obtain ⟨handles, hfold, hlookup⟩ := @lookup_of_buildNamedResolvers ∅
    (env.startup pools loadPinned).buildNamed (fun _ _ ↦ rfl) order
  refine ⟨handles, by rw [buildNamedResolvers, horder]; exact hfold, fun spec family ↦ ?_⟩
  refine HandlesOf.getResolver (fun name family ↦ ?_) pools loadPinned spec family
  rw [hlookup]
  by_cases hname : name ∈ order
  · obtain ⟨r, hr⟩ := Option.isSome_iff_exists.mp (AList.lookup_isSome.mpr ((hkeys name).mpr hname))
    obtain ⟨_, plan, resolver, bytes, -, rfl, -⟩ := hwired name r hr
    rw [if_pos hname, hr]
    rfl
  · rw [if_neg hname, AList.lookup_eq_none.mpr fun hmem ↦ hname ((hkeys name).mp hmem)]
    rfl

end SniGate
