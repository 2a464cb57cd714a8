import SniGate.Router.Basic
import Mathlib

/-!
# What confinement vouches for

When `wildcardConfined` accepts a wildcard for a set of routes, every host one label below the
wildcard's parent is routed into that set (`matchHost_of_wildcardConfined`). The hosts that some
pattern names are checked one by one; all others share what is found for the parent, except that a
regular expression may pick out single ones. There the declared suffixes are relied on: a regular
expression is assumed to match only hosts that its declaration covers (`RegexConfined`).

Host names are made of letters, digits, hyphens, underscores and dots. For them normalization only
lowers the case and takes off final dots.
-/

namespace SniGate

/-! ## Host names -/

/-- The characters of host names. -/
def isHostChar (c : Char) : Bool := isAsciiAlphanumeric c || c = '-' || c = '_' || c = '.'

/-- A host name, with or without final dots. -/
def IsHostName (s : Str) : Prop := ∀ c ∈ s, isHostChar c

instance : DecidablePred IsHostName := fun s ↦
  decidable_of_iff (s.all isHostChar) List.all_eq_true

/-- One label of a host name. -/
structure IsLabel (l : Str) : Prop where
  ne_nil : l ≠ []
  isHostName : IsHostName l
  noDot : '.' ∉ l

section HostNames

variable {c : Char} {s l parent : Str}

theorem isHostChar_iff : isHostChar c ↔ (48 ≤ c.toNat ∧ c.toNat ≤ 57) ∨
    (65 ≤ c.toNat ∧ c.toNat ≤ 90) ∨ (97 ≤ c.toNat ∧ c.toNat ≤ 122) ∨ c.toNat = 45 ∨
      c.toNat = 95 ∨ c.toNat = 46 := by
  simp only [isHostChar, isAsciiAlphanumeric, Char.isAlphanum, Char.isAlpha, Char.isUpper,
    Char.isLower, Char.isDigit, Bool.or_eq_true, decide_eq_true_eq, Bool.and_eq_true,
    UInt32.le_iff_toNat_le, ge_iff_le, ← Char.toNat_inj]
  change (((((65 ≤ c.toNat ∧ c.toNat ≤ 90) ∨ (97 ≤ c.toNat ∧ c.toNat ≤ 122)) ∨
    (48 ≤ c.toNat ∧ c.toNat ≤ 57)) ∨ c.toNat = 45) ∨ c.toNat = 95) ∨ c.toNat = 46 ↔ _
  tauto

theorem toNat_toLower (c : Char) :
    c.toLower.toNat = if 65 ≤ c.toNat ∧ c.toNat ≤ 90 then c.toNat + 32 else c.toNat := by
  have hupper : (c.val ≥ 'A'.val ∧ c.val ≤ 'Z'.val) ↔ 65 ≤ c.toNat ∧ c.toNat ≤ 90 := by
    rw [ge_iff_le, UInt32.le_iff_toNat_le, UInt32.le_iff_toNat_le]
    rfl
  rw [Char.toLower]
  by_cases h : c.val ≥ 'A'.val ∧ c.val ≤ 'Z'.val
  · have hrange := hupper.mp h
    rw [dif_pos h, if_pos hrange]
    change (c.val + 32).toNat = c.toNat + 32
    rw [UInt32.toNat_add]
    exact Nat.mod_eq_of_lt (show c.toNat + 32 < 2 ^ 32 by omega)
  · rw [dif_neg h, if_neg (mt hupper.mpr h)]

theorem toLower_eq_iff {d : Char}
    (hd : d.toNat < 65 ∨ 90 < d.toNat ∧ d.toNat < 97 ∨ 122 < d.toNat) :
    c.toLower = d ↔ c = d := by
  rw [← Char.toNat_inj, ← Char.toNat_inj, toNat_toLower]
  split_ifs <;> omega

theorem toLower_eq_dot : c.toLower = '.' ↔ c = '.' := toLower_eq_iff (by decide)

theorem isHostChar_toLower (h : isHostChar c) : isHostChar c.toLower := by
  rw [isHostChar_iff] at h ⊢
  rw [toNat_toLower]
  split_ifs <;> omega

theorem not_isWhitespace_of_isHostChar (h : isHostChar c) : isWhitespace c = false := by
  rw [isHostChar_iff] at h
  simp only [isWhitespace, decide_eq_false_iff_not]
  omega

theorem asciiLowercase_idem : asciiLowercase (asciiLowercase s) = asciiLowercase s := by
  simp [asciiLowercase]

theorem isHostName_asciiLowercase (h : IsHostName s) : IsHostName (asciiLowercase s) := by
  intro c hc
  obtain ⟨d, hd, rfl⟩ := List.mem_map.mp hc
  exact isHostChar_toLower (h d hd)

theorem isHostName_trimEndMatches (h : IsHostName s) : IsHostName (trimEndMatches '.' s) :=
  fun c hc ↦ h c ((List.rdropWhile_prefix (· = '.') s).subset hc)

theorem trim_of_isHostName (h : IsHostName s) : trim s = s := by
  have hspace : ∀ c ∈ s, ¬isWhitespace c := fun c hc ↦ by
    simp [not_isWhitespace_of_isHostChar (h c hc)]
  have hstart : s.dropWhile isWhitespace = s :=
    List.dropWhile_eq_self_iff.mpr fun hl ↦ hspace _ (List.getElem_mem hl)
  rw [trim, hstart]
  exact List.rdropWhile_eq_self_iff.mpr fun hl ↦ hspace _ (List.getLast_mem hl)

theorem trimEndMatches_asciiLowercase :
    trimEndMatches '.' (asciiLowercase s) = asciiLowercase (trimEndMatches '.' s) := by
  rw [trimEndMatches, trimEndMatches, asciiLowercase, asciiLowercase, List.rdropWhile,
    List.rdropWhile, ← List.map_reverse, List.dropWhile_map, List.map_reverse]
  congr 3
  funext c
  simp [toLower_eq_dot]

theorem trimEndMatches_append (h : trimEndMatches '.' parent ≠ []) :
    trimEndMatches '.' (l ++ '.' :: parent) = l ++ '.' :: trimEndMatches '.' parent := by
  rw [trimEndMatches, List.rdropWhile, ne_eq, List.reverse_eq_nil_iff] at h
  rw [trimEndMatches, trimEndMatches, List.rdropWhile, List.rdropWhile, List.reverse_append,
    List.reverse_cons, List.append_assoc, List.dropWhile_append, if_neg (by simpa using h)]
  simp

theorem isHostName_below (hl : IsLabel l) (hparent : IsHostName parent) :
    IsHostName (l ++ '.' :: parent) := by
  intro c hc
  rcases List.mem_append.mp hc with hc | hc
  · exact hl.isHostName c hc
  · rcases List.mem_cons.mp hc with rfl | hc
    · decide
    · exact hparent c hc

namespace Router

theorem normalize_of_isHostName (h : IsHostName s) :
    normalize s = asciiLowercase (trimEndMatches '.' s) := by
  have hhead : s.head? ≠ some '[' := fun hs ↦
    absurd (h _ (List.mem_of_head? hs)) (by decide)
  have hcolon : s.takeWhile (· ≠ ':') = s := by
    refine List.takeWhile_eq_self_iff.mpr fun c hc ↦ decide_eq_true fun heq ↦ ?_
    exact absurd (h c hc) (by rw [heq]; decide)
  rw [normalize, trim_of_isHostName h, if_neg hhead, hcolon]

/-- Normalizing twice is normalizing once. -/
theorem normalize_normalize (h : IsHostName s) : normalize (normalize s) = normalize s := by
  rw [normalize_of_isHostName h,
    normalize_of_isHostName (isHostName_asciiLowercase (isHostName_trimEndMatches h)),
    trimEndMatches_asciiLowercase, asciiLowercase_idem, trimEndMatches, trimEndMatches,
    List.rdropWhile_idempotent]

theorem matchHost_normalize (r : Router) (h : IsHostName s) :
    r.matchHost (normalize s) = r.matchHost s := by
  rw [matchHost, matchHost, normalize_normalize h]

theorem normalize_below (hl : IsLabel l) (hparent : IsHostName parent)
    (hne : trimEndMatches '.' parent ≠ []) :
    normalize (l ++ '.' :: parent) = asciiLowercase l ++ '.' :: normalize parent := by
  have hname := isHostName_below hl hparent
  rw [normalize_of_isHostName hname, normalize_of_isHostName hparent, trimEndMatches_append hne,
    asciiLowercase, List.map_append, List.map_cons]
  rfl

end Router

theorem isLabel_asciiLowercase (hl : IsLabel l) : IsLabel (asciiLowercase l) where
  ne_nil := by simpa [asciiLowercase] using hl.ne_nil
  isHostName := isHostName_asciiLowercase hl.isHostName
  noDot hdot := by
    obtain ⟨c, hc, heq⟩ := List.mem_map.mp hdot
    exact hl.noDot (toLower_eq_dot.mp heq ▸ hc)

end HostNames

namespace Router

/-! ## What regular expressions declare -/

/-- The hosts a declared suffix covers. -/
def scopeCovers (scope host : Str) : Prop :=
  match stripStart "*.".toList scope with
  | some suffix => ∃ l, '.' ∉ l ∧ host = l ++ '.' :: suffix
  | none =>
    match stripStart ['.'] scope with
    | some suffix => host = suffix ∨ ('.' :: suffix) <:+ host
    | none => host = scope

/-- Regular expressions match only hosts that their declared suffixes cover. -/
def RegexConfined (r : Router) : Prop :=
  ∀ route ∈ r.regex, ∀ host, route.pattern host →
    ∃ scope ∈ route.scopeSuffix, scopeCovers scope host

section Confined

variable {r : Router} {l l' parent parent' scope host : Str} {inScope : RouteId → Bool}
  {id : RouteId}

theorem append_dot_inj (hl : '.' ∉ l) (hl' : '.' ∉ l')
    (h : l ++ '.' :: parent = l' ++ '.' :: parent') : l = l' ∧ parent = parent' := by
  induction l generalizing l' with
  | nil =>
    cases l' with
    | nil => exact ⟨rfl, (List.cons.inj h).2⟩
    | cons c l' => exact absurd (List.mem_cons.mpr (.inl (List.cons.inj h).1)) hl'
  | cons c l ih =>
    cases l' with
    | nil => exact absurd (List.mem_cons.mpr (.inl (List.cons.inj h).1.symm)) hl
    | cons c' l' =>
      obtain ⟨rfl, htail⟩ := List.cons.inj h
      obtain ⟨rfl, hparent⟩ := ih (fun hc ↦ hl (List.mem_cons_of_mem _ hc))
        (fun hc ↦ hl' (List.mem_cons_of_mem _ hc)) htail
      exact ⟨rfl, hparent⟩

/-- A suffix that starts with a dot does not reach into a label. -/
theorem suffix_of_suffix_append (hl : '.' ∉ l) {rest : Str} (h : ('.' :: rest) <:+ l ++ parent) :
    ('.' :: rest) <:+ parent := by
  induction l with
  | nil => exact h
  | cons c l ih =>
    rcases List.suffix_cons_iff.mp h with heq | h
    · exact absurd (List.mem_cons.mpr (.inl (List.cons.inj heq).1)) hl
    · exact ih (fun hc ↦ hl (List.mem_cons_of_mem _ hc)) h

theorem oneLabelAbove_append (hl : l ≠ []) (hdot : '.' ∉ l) :
    oneLabelAbove (l ++ '.' :: parent) parent = some l := by
  have hparent : stripEnd parent (l ++ '.' :: parent) = some (l ++ ['.']) :=
    stripEnd_eq_some.mpr (by simp)
  have hdot' : stripEnd ['.'] (l ++ ['.']) = some l := stripEnd_eq_some.mpr rfl
  rw [oneLabelAbove, hparent, Option.bind_some, hdot']
  simp [hl, hdot]

/-- A declared suffix that covers a host one label below the parent overlaps with the wildcard. -/
theorem matchScopePattern_of_covers (hl : l ≠ []) (hdot : '.' ∉ l)
    (h : scopeCovers scope (l ++ '.' :: parent)) : matchScopePattern scope parent := by
  rw [scopeCovers] at h
  rw [matchScopePattern]
  cases hwildcard : stripStart "*.".toList scope with
  | some suffix =>
    rw [hwildcard] at h
    obtain ⟨l', hl', heq⟩ := h
    exact decide_eq_true (append_dot_inj hdot hl' heq).2
  | none =>
    rw [hwildcard] at h
    dsimp only at h ⊢
    cases hsuffix : stripStart ['.'] scope with
    | some suffix =>
      rw [hsuffix] at h
      refine decide_eq_true ?_
      rcases h with rfl | h
      · rw [oneLabelAbove_append hl hdot]
        exact .inr rfl
      · rcases List.suffix_cons_iff.mp (suffix_of_suffix_append hdot h) with heq | h
        · exact .inl (decide_eq_true (.inl (List.cons.inj heq).2.symm))
        · exact .inl (decide_eq_true (.inr h))
    | none =>
      rw [hsuffix] at h
      dsimp only at h ⊢
      rw [← h, oneLabelAbove_append hl hdot]
      rfl

theorem parents_append (hdot : '.' ∉ l) :
    parents (l ++ '.' :: parent) = parent :: parents parent := by
  induction l with
  | nil => simp [parents]
  | cons c l ih =>
    have hc : c ≠ '.' := fun h ↦ hdot (h ▸ List.mem_cons_self)
    rw [List.cons_append, parents, if_neg hc]
    exact ih fun hc ↦ hdot (List.mem_cons_of_mem _ hc)

theorem splitOnce_append (hdot : '.' ∉ l) :
    splitOnce '.' (l ++ '.' :: parent) = some (l, parent) := by
  have hall : ∀ c ∈ l, decide (c ≠ '.') = true := fun c hc ↦
    decide_eq_true fun heq ↦ hdot (heq ▸ hc)
  rw [splitOnce, List.dropWhile_append_of_pos hall, List.takeWhile_append_of_pos hall]
  simp

theorem findSome?_of_pairs {α β : Type} {xs : List α} {f : α → Option β} :
    (xs.findSome? fun x ↦ (f x).map fun y ↦ (x, y)).map Prod.snd = xs.findSome? f := by
  induction xs with
  | nil => rfl
  | cons x xs ih =>
    rw [List.findSome?_cons, List.findSome?_cons]
    cases f x with
    | none => exact ih
    | some y => rfl

/-- The hosts below the parent that a pattern names are checked. -/
theorem mem_named (hl : l ≠ []) (hdot : '.' ∉ l)
    (h : l ++ '.' :: parent ∈ r.exact.keys ∨ l ++ '.' :: parent ∈ r.suffix.keys) :
    l ++ '.' :: parent ∈ r.named parent := by
  rw [named, List.mem_insertionSort, List.mem_filter, List.mem_append]
  exact ⟨h, by rw [oneLabelAbove_append hl hdot]; rfl⟩

theorem lookup_eq_none {m : Map Str RouteId} {k : Str} (h : k ∉ m.keys) : m.lookup k = none :=
  AList.lookup_eq_none.mpr fun hk ↦ h (AList.mem_keys.mp hk)

/-- The tiers after the suffix tier route a host below the parent into the set. -/
theorem fallthrough_inScope (hregex : r.RegexConfined) (hl : l ≠ []) (hdot : '.' ∉ l)
    (h : r.fallthroughConfined parent inScope = .ok ()) :
    ∃ id, (r.regexTier (l ++ '.' :: parent)).or r.default = some id ∧ inScope id := by
  rw [fallthroughConfined] at h
  cases hdefault : r.default with
  | none => simp [hdefault] at h
  | some id =>
    rw [hdefault] at h
    dsimp only at h
    split_ifs at h with hout
    have hid : inScope id := by simpa using hout
    rw [regexTier]
    cases hfind : r.regex.find? fun route ↦ route.pattern (l ++ '.' :: parent) with
    | none => exact ⟨id, rfl, hid⟩
    | some route =>
      refine ⟨route.routeId, rfl, ?_⟩
      have hroute := List.mem_of_find?_eq_some hfind
      have hpattern : route.pattern (l ++ '.' :: parent) :=
        List.find?_some (p := fun route : RegexRoute ↦ route.pattern (l ++ '.' :: parent)) hfind
      obtain ⟨scope, hscope, hcovers⟩ := hregex route hroute _ hpattern
      have hoverlap := matchScopePattern_of_covers hl hdot hcovers
      -- a route outside the set would have been found to overlap
      by_contra hroute'
      cases hescape : r.regex.find? fun route ↦ !inScope route.routeId ∧
          route.scopeSuffix.any fun scope ↦ matchScopePattern scope parent with
      | some route =>
        rw [hescape] at h
        exact absurd h (by simp)
      | none =>
        exact List.find?_eq_none.mp hescape route hroute (decide_eq_true
          ⟨by simpa using hroute', List.any_eq_true.mpr ⟨scope, hscope, hoverlap⟩⟩)

/-- A host is routed by the first tier that answers for its normal form. -/
theorem matchHost_eq_or (hne : normalize host ≠ []) :
    r.matchHost host = (r.exact.lookup (normalize host)).or
      (((splitOnce '.' (normalize host)).bind fun p ↦ r.wildcard.lookup p.2).or
        ((r.suffixWalk (normalize host)).or ((r.regexTier (normalize host)).or r.default))) := by
  rw [matchHost, if_neg hne]
  generalize normalize host = name
  cases r.exact.lookup name with
  | some id => rfl
  | none =>
    cases (splitOnce '.' name).bind fun p ↦ r.wildcard.lookup p.2 with
    | some id => rfl
    | none =>
      cases r.suffixWalk name with
      | some id => rfl
      | none => cases r.regexTier name <;> rfl

/-- A host below the parent that no key names is left to the tiers of the parent. -/
theorem matchHost_below_unnamed (hdot : '.' ∉ l)
    (hnorm : normalize (l ++ '.' :: parent) = l ++ '.' :: parent)
    (hexact : l ++ '.' :: parent ∉ r.exact.keys) (hsuffix : l ++ '.' :: parent ∉ r.suffix.keys) :
    r.matchHost (l ++ '.' :: parent) = (r.wildcard.lookup parent).or
      ((((ancestors parent).findSome? fun cur ↦
          (r.suffix.lookup cur).map fun id ↦ (cur, id)).map Prod.snd).or
        ((r.regexTier (l ++ '.' :: parent)).or r.default)) := by
  have hwalk : r.suffixWalk (l ++ '.' :: parent) =
      (ancestors parent).findSome? r.suffix.lookup := by
    rw [suffixWalk, ancestors, parents_append hdot, List.findSome?_cons, lookup_eq_none hsuffix]
    rfl
  rw [matchHost_eq_or (by simp [hnorm]), hnorm, lookup_eq_none hexact, Option.none_or,
    splitOnce_append hdot, Option.bind_some, hwalk, findSome?_of_pairs]

theorem matchHost_of_hostEscape (h : r.hostEscape inScope host = none) :
    ∃ id, r.matchHost host = some id ∧ inScope id := by
  rw [hostEscape] at h
  cases hmatch : r.matchHost host with
  | none => simp [hmatch] at h
  | some id =>
    refine ⟨id, rfl, ?_⟩
    by_contra hout
    simp [hmatch, hout] at h

theorem matchHost_below (hregex : r.RegexConfined) (hl : l ≠ []) (hdot : '.' ∉ l)
    (hnorm : normalize (l ++ '.' :: parent) = l ++ '.' :: parent)
    (hnamed : (r.named parent).findSome? (r.hostEscape inScope) = none)
    (hgeneric : r.genericVerdict parent inScope = .ok ()) :
    ∃ id, r.matchHost (l ++ '.' :: parent) = some id ∧ inScope id := by
  by_cases hkey : l ++ '.' :: parent ∈ r.exact.keys ∨ l ++ '.' :: parent ∈ r.suffix.keys
  · exact matchHost_of_hostEscape
      (List.findSome?_eq_none_iff.mp hnamed _ (mem_named hl hdot hkey))
  · rw [not_or] at hkey
    rw [matchHost_below_unnamed hdot hnorm hkey.1 hkey.2]
    rw [genericVerdict] at hgeneric
    cases hwildcard : r.wildcard.lookup parent with
    | some id =>
      refine ⟨id, rfl, ?_⟩
      by_contra hout
      simp [hwildcard, hout] at hgeneric
    | none =>
      rw [hwildcard] at hgeneric
      dsimp only at hgeneric
      rw [Option.none_or]
      cases hpair : (ancestors parent).findSome? fun cur ↦
          (r.suffix.lookup cur).map fun id ↦ (cur, id) with
      | some p =>
        obtain ⟨cur, id⟩ := p
        refine ⟨id, rfl, ?_⟩
        by_contra hout
        simp [hpair, hout] at hgeneric
      | none =>
        rw [hpair] at hgeneric
        exact fallthrough_inScope hregex hl hdot hgeneric

/-- **Confinement.** A host one label below the parent of a wildcard that is confined to a set of
routes is routed into the set. -/
theorem matchHost_of_wildcardConfined (hregex : r.RegexConfined) (hl : IsLabel l)
    (hparent : IsHostName parent) (hne : trimEndMatches '.' parent ≠ [])
    (h : r.wildcardConfined parent inScope = .ok ()) :
    ∃ id, r.matchHost (l ++ '.' :: parent) = some id ∧ inScope id := by
  have hbelow := normalize_below hl hparent hne
  have hname := isHostName_below hl hparent
  have hnorm := normalize_normalize hname
  have hlower := isLabel_asciiLowercase hl
  rw [wildcardConfined] at h
  rw [← matchHost_normalize r hname, hbelow]
  rw [hbelow] at hnorm
  cases hnamed : (r.named (normalize parent)).findSome? (r.hostEscape inScope) with
  | some escape => simp [hnamed] at h
  | none =>
    rw [hnamed] at h
    exact matchHost_below hregex hlower.ne_nil hlower.noDot hnorm hnamed h

/-- A name that is confined to a set of routes is routed into the set. -/
theorem matchHost_of_nameConfined (h : r.nameConfined host inScope = .ok ()) :
    ∃ id, r.matchHost host = some id ∧ inScope id := by
  rw [nameConfined] at h
  cases hmatch : r.matchHost host with
  | none => simp [hmatch] at h
  | some id =>
    refine ⟨id, rfl, ?_⟩
    by_contra hout
    simp [hmatch, hout] at h

end Confined

end Router

end SniGate
