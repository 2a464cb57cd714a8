import SniGate.Router.Table
import SniGate.Text.Sorted

/-!
# The fingerprint of a routing table

Certificates are stored under a digest of the inputs that define a table's behaviour, rendered into
one text: the patterns of each route, the default route, and the declared regular expressions. Two
tables with one text are meant to resolve every host and judge every wildcard alike.

They do when the text can be read back (`fingerprintText_faithful`), which takes that patterns and
scopes are free of the separators between them, names of the colon after them, and regular
expressions of the two characters that end an entry. The configuration checks none of this: nothing
is escaped, so the one pattern `a,b` is written like the two patterns `a` and `b`.
-/

namespace SniGate

/-! ## Rendering -/

/-- One route: its id, and its patterns in order. -/
def routeText (p : List Str × RouteId) : Str :=
  decimal p.2 ++ '=' :: (join [','] (sortTexts p.1) ++ [';'])

/-- The default route. -/
def defaultText : Option RouteId → Str
  | some id => decimal id
  | none => "none".toList

/-- One regular expression: its name, pattern and declared scopes. -/
def regexText (e : Σ _ : Str, RegexDef) : Str :=
  e.1 ++ ':' :: (e.2.pattern ++ '[' :: (join [','] (sortTexts e.2.scopeSuffix) ++ "];".toList))

/-- The declared regular expressions, in order of their names; nothing when there are none. -/
def regexesText (regexes : Map Str RegexDef) : Str :=
  if regexes.entries = [] then []
  else
    ";regexes=\x7b".toList ++
      (regexes.entries.insertionSort fun a b ↦ a.1 ≤ b.1).flatMap regexText ++ ['}']

/-- The text `router_fingerprint` digests. -/
def fingerprintText (patterns : List (List Str)) (default : Option RouteId)
    (regexes : Map Str RegexDef) : Str :=
  patterns.zipIdx.flatMap routeText ++
    ("default=".toList ++ (defaultText default ++ regexesText regexes))

/-! ## Reading it back -/

/-- A table whose rendering can be read back. -/
structure Delimited (patterns : List (List Str)) (regexes : Map Str RegexDef) : Prop where
  pattern : ∀ pats ∈ patterns, ∀ pat ∈ pats, ',' ∉ pat ∧ ';' ∉ pat
  name : ∀ e ∈ regexes.entries, ':' ∉ e.1
  regex : ∀ e ∈ regexes.entries, ¬"];".toList <:+: e.2.pattern
  scope : ∀ e ∈ regexes.entries, ∀ s ∈ e.2.scopeSuffix, ',' ∉ s ∧ '[' ∉ s ∧ ']' ∉ s

/-- Two declarations of one regular expression. -/
def SameRegex (d d' : RegexDef) : Prop :=
  d.pattern = d'.pattern ∧ SameTexts d.scopeSuffix d'.scopeSuffix

theorem not_isDigit_mem_decimal {c : Char} (hc : ¬c.isDigit) (n : ℕ) : c ∉ decimal n :=
  fun h ↦ hc (isDigit_of_mem_decimal h)

private theorem decimal_append_ne {c : Char} (hc : ¬c.isDigit) {n : ℕ} {r s : Str} :
    decimal n ++ r ≠ c :: s := by
  intro h
  cases hd : decimal n with
  | nil => exact Nat.toDigits_ne_nil hd
  | cons d ds =>
    rw [hd, List.cons_append] at h
    obtain ⟨rfl, -⟩ := List.cons.inj h
    exact not_isDigit_mem_decimal hc n (hd ▸ List.mem_cons_self)

section Read

variable {patterns patterns' : List (List Str)} {default default' : Option RouteId}
  {regexes regexes' : Map Str RegexDef}

theorem routes_of_text {r r' : Str} (hp : ∀ pats ∈ patterns, ∀ pat ∈ pats, ',' ∉ pat ∧ ';' ∉ pat)
    (hp' : ∀ pats ∈ patterns', ∀ pat ∈ pats, ',' ∉ pat ∧ ';' ∉ pat)
    (h : patterns.zipIdx.flatMap routeText ++ ("default=".toList ++ r) =
      patterns'.zipIdx.flatMap routeText ++ ("default=".toList ++ r')) :
    List.Forall₂ (fun p q ↦ p.2 = q.2 ∧ SameTexts p.1 q.1) patterns.zipIdx patterns'.zipIdx ∧
      r = r' := by
  have hmem : ∀ {ps : List (List Str)}, (∀ pats ∈ ps, ∀ pat ∈ pats, ',' ∉ pat ∧ ';' ∉ pat) →
      ∀ p ∈ ps.zipIdx, ∀ pat ∈ p.1, ',' ∉ pat ∧ ';' ∉ pat := by
    intro ps hps p hin
    exact hps p.1 ((List.mem_zipIdx' hin).2 ▸ List.getElem_mem _)
  have hjoin : ∀ p : List Str × RouteId, (∀ pat ∈ p.1, ',' ∉ pat ∧ ';' ∉ pat) →
      ';' ∉ join [','] (sortTexts p.1) := by
    rintro p hpat hin
    obtain ⟨s, hs, hc⟩ := (mem_join_iff (by decide)).mp hin
    exact (hpat s (mem_sortTexts.mp hs)).2 hc
  suffices hall : List.Forall₂ (fun p q ↦ p.2 = q.2 ∧ SameTexts p.1 q.1) patterns.zipIdx
      patterns'.zipIdx ∧ "default=".toList ++ r = "default=".toList ++ r' from
    ⟨hall.1, List.append_cancel_left hall.2⟩
  refine flatMap_inj ?_ ?_ ?_ h
  · intro p hp₁ q hq₁ s s' heq
    have hsep := hmem hp p hp₁
    have hsep' := hmem hp' q hq₁
    simp only [routeText, List.append_assoc, List.cons_append] at heq
    obtain ⟨hid, heq⟩ := field_inj_of_notMem (not_isDigit_mem_decimal (by decide) _)
      (not_isDigit_mem_decimal (by decide) _) heq
    obtain ⟨hpats, hs⟩ := field_inj_of_notMem (hjoin p hsep) (hjoin q hsep') heq
    exact ⟨⟨decimal_injective hid, sameTexts_of_join (fun s hs ↦ (hsep s hs).1)
      (fun s hs ↦ (hsep' s hs).1) hpats⟩, hs⟩
  · intro p _ s heq
    rw [routeText, List.append_assoc] at heq
    exact decimal_append_ne (by decide) heq
  · intro p _ s heq
    rw [routeText, List.append_assoc] at heq
    exact decimal_append_ne (by decide) heq

/-- The text after the default route's id is empty or begins with a semicolon. -/
private theorem regexesText_cases (regexes : Map Str RegexDef) :
    regexesText regexes = [] ∨ ∃ s, regexesText regexes = ';' :: s := by
  rw [regexesText]
  split_ifs
  · exact .inl rfl
  · exact .inr ⟨_, rfl⟩

private theorem semicolon_notMem_defaultText (default : Option RouteId) :
    ';' ∉ defaultText default := by
  cases default with
  | none =>
    rw [defaultText]
    decide
  | some id => exact not_isDigit_mem_decimal (by decide) id

private theorem defaultText_injective (h : defaultText default = defaultText default') :
    default = default' := by
  cases default with
  | none =>
    cases default' with
    | none => rfl
    | some id =>
      rw [defaultText, defaultText, ← List.append_nil (decimal id)] at h
      exact absurd h.symm (decimal_append_ne (by decide))
  | some id =>
    cases default' with
    | none =>
      rw [defaultText, defaultText, ← List.append_nil (decimal id)] at h
      exact absurd h (decimal_append_ne (by decide))
    | some id' => rw [decimal_injective h]

/-- Reading the default route back. -/
theorem default_of_text
    (h : defaultText default ++ regexesText regexes =
      defaultText default' ++ regexesText regexes') :
    default = default' ∧ regexesText regexes = regexesText regexes' := by
  have hd := semicolon_notMem_defaultText default
  have hd' := semicolon_notMem_defaultText default'
  have hparts : defaultText default = defaultText default' ∧
      regexesText regexes = regexesText regexes' := by
    rcases regexesText_cases regexes with hr | ⟨s, hr⟩ <;>
      rcases regexesText_cases regexes' with hr' | ⟨s', hr'⟩ <;> rw [hr, hr'] at h ⊢
    · rw [List.append_nil, List.append_nil] at h
      exact ⟨h, rfl⟩
    · rw [List.append_nil] at h
      exact absurd (h ▸ List.mem_append_right _ List.mem_cons_self) hd
    · rw [List.append_nil] at h
      exact absurd (h ▸ List.mem_append_right _ List.mem_cons_self) hd'
    · obtain ⟨h₁, h₂⟩ := field_inj_of_notMem hd hd' h
      exact ⟨h₁, by rw [h₂]⟩
  exact ⟨defaultText_injective hparts.1, hparts.2⟩

private theorem regex_of_text {e e' : Σ _ : Str, RegexDef} {r r' : Str}
    (hn : ':' ∉ e.1) (hn' : ':' ∉ e'.1) (hr : ¬"];".toList <:+: e.2.pattern)
    (hr' : ¬"];".toList <:+: e'.2.pattern)
    (hs : ∀ s ∈ e.2.scopeSuffix, ',' ∉ s ∧ '[' ∉ s ∧ ']' ∉ s)
    (hs' : ∀ s ∈ e'.2.scopeSuffix, ',' ∉ s ∧ '[' ∉ s ∧ ']' ∉ s)
    (h : regexText e ++ r = regexText e' ++ r') : (e.1 = e'.1 ∧ SameRegex e.2 e'.2) ∧ r = r' := by
  have hjoin : ∀ (c : Char) (d : RegexDef), c ≠ ',' → (∀ s ∈ d.scopeSuffix, c ∉ s) →
      c ∉ join [','] (sortTexts d.scopeSuffix) := by
    rintro c d hc hscope hin
    obtain ⟨s, hmem, hcs⟩ := (mem_join_iff (by simpa using hc)).mp hin
    exact hscope s (mem_sortTexts.mp hmem) hcs
  simp only [regexText, List.append_assoc, List.cons_append] at h
  obtain ⟨hname, h⟩ := field_inj_of_notMem hn hn' h
  -- the entry ends at its first `];`
  have hend : ∀ d : RegexDef, (¬"];".toList <:+: d.pattern) →
      (∀ s ∈ d.scopeSuffix, ',' ∉ s ∧ '[' ∉ s ∧ ']' ∉ s) →
      ¬"];".toList <:+: d.pattern ++ '[' :: join [','] (sortTexts d.scopeSuffix) := by
    intro d hd hscope hin
    exact hd (infix_left_of_append (by decide) (by decide)
      (hjoin ']' d (by decide) fun s hs ↦ (hscope s hs).2.2) hin)
  have happart := apart_of_not_infix (hend e.2 hr hs) (hend e'.2 hr' hs')
  obtain ⟨hbody, hrest⟩ := field_inj (by decide) happart
    (show _ ++ (']' :: [';'] ++ r) = _ ++ (']' :: [';'] ++ r') by simpa using h)
  obtain ⟨hpattern, hscopes⟩ := field_inj_of_notMem_after
    (hjoin '[' e.2 (by decide) fun s hs₁ ↦ (hs s hs₁).2.1)
    (hjoin '[' e'.2 (by decide) fun s hs₁ ↦ (hs' s hs₁).2.1) hbody
  exact ⟨⟨hname, hpattern, sameTexts_of_join (fun s hs₁ ↦ (hs s hs₁).1)
    (fun s hs₁ ↦ (hs' s hs₁).1) hscopes⟩, hrest⟩

theorem regexes_of_text (hd : Delimited patterns regexes) (hd' : Delimited patterns' regexes')
    (h : regexesText regexes = regexesText regexes') :
    List.Forall₂ (fun e e' ↦ e.1 = e'.1 ∧ SameRegex e.2 e'.2)
      (regexes.entries.insertionSort fun a b ↦ a.1 ≤ b.1)
      (regexes'.entries.insertionSort fun a b ↦ a.1 ≤ b.1) := by
  rw [regexesText, regexesText] at h
  split_ifs at h with he he' he'
  · rw [he, he']
    exact .nil
  · exact absurd h (by simp)
  · exact absurd h (by simp)
  · rw [List.append_assoc, List.append_assoc] at h
    have hlong : ∀ (e : Σ _ : Str, RegexDef) (s : Str), regexText e ++ s ≠ ['}'] := by
      intro e s heq
      have hlen := congrArg List.length heq
      simp only [regexText, List.length_append, List.length_cons, List.length_nil,
        String.length_toList] at hlen
      omega
    refine (flatMap_inj ?_ (fun e _ s ↦ hlong e s) (fun e _ s ↦ hlong e s)
      (List.append_cancel_left h)).1
    intro e hin e' hin' r r' heq
    rw [List.mem_insertionSort] at hin hin'
    exact regex_of_text (hd.name e hin) (hd'.name e' hin') (hd.regex e hin) (hd'.regex e' hin')
      (hd.scope e hin) (hd'.scope e' hin') heq

end Read

/-! ## What the text determines -/

namespace Router

section Determined

variable {regexNew : RegexNew} {regexes regexes' : Map Str RegexDef}
  {es es' : List (Str × RouteId)} {e : Str × RouteId} {r r' : Router}

theorem mem_entries {patterns : List (List Str)} :
    e ∈ entries patterns ↔ ∃ pats, patterns[e.2]? = some pats ∧ e.1 ∈ pats := by
  rw [entries, List.mem_flatMap]
  constructor
  · rintro ⟨p, hp, he⟩
    obtain ⟨pat, hpat, rfl⟩ := List.mem_map.mp he
    exact ⟨p.1, List.mem_zipIdx_iff_getElem?.mp hp, hpat⟩
  · rintro ⟨pats, hp, he⟩
    exact ⟨(pats, e.2), List.mem_zipIdx_iff_getElem?.mpr hp, List.mem_map.mpr ⟨e.1, he, rfl⟩⟩

/-- The entries stand in the order of their routes. -/
theorem entries_ordered (patterns : List (List Str)) :
    (entries patterns).Pairwise fun a b ↦ a.2 ≤ b.2 := by
  have hfrom : ∀ (ps : List (List Str)) (n : ℕ),
      ((ps.zipIdx n).flatMap fun p ↦ p.1.map fun pat ↦ (pat, p.2)).Pairwise
        (fun a b : Str × RouteId ↦ a.2 ≤ b.2) ∧
      ∀ a ∈ (ps.zipIdx n).flatMap fun p ↦ p.1.map fun pat ↦ (pat, p.2), n ≤ a.2 := by
    intro ps
    induction ps with
    | nil => exact fun n ↦ ⟨.nil, by simp⟩
    | cons p ps ih =>
      intro n
      obtain ⟨hpair, hle⟩ := ih (n + 1)
      rw [List.zipIdx_cons, List.flatMap_cons]
      have hfirst : ∀ a ∈ p.map fun pat ↦ (pat, n), a.2 = n := by
        intro a ha
        obtain ⟨pat, -, rfl⟩ := List.mem_map.mp ha
        rfl
      refine ⟨List.pairwise_append.mpr ⟨?_, hpair, ?_⟩, fun a ha ↦ ?_⟩
      · refine List.Pairwise.imp_of_mem ?_ (List.pairwise_of_forall (R := fun _ _ ↦ True)
          fun _ _ ↦ trivial)
        intro a b ha hb _
        rw [hfirst a ha, hfirst b hb]
      · intro a ha b hb
        rw [hfirst a ha]
        exact (Nat.le_succ n).trans (hle b hb)
      · rcases List.mem_append.mp ha with ha | ha
        · rw [hfirst a ha]
        · exact (Nat.le_succ n).trans (hle a ha)
  exact (hfrom patterns 0).1

theorem regex_ordered (h : Built regexNew regexes es r) (hord : es.Pairwise fun a b ↦ a.2 ≤ b.2) :
    (r.regex.map RegexRoute.routeId).Pairwise (· ≤ ·) := by
  have hid : ∀ e route, entryRegex regexNew regexes e = some route → route.routeId = e.2 := by
    intro e route he
    rw [entryRegex] at he
    split at he
    · rename_i name _
      rw [regexRoute] at he
      split at he
      · exact absurd he (by simp [refuse, Except.toOption])
      · split at he
        · exact absurd he (by simp [refuse, Except.toOption])
        · obtain rfl := Option.some.inj he
          rfl
    · exact absurd he (by simp)
  rw [h.regex, List.pairwise_map, List.pairwise_filterMap]
  refine hord.imp fun hab route hroute route' hroute' ↦ ?_
  rw [hid _ _ hroute, hid _ _ hroute']
  exact hab

theorem matchScopePattern_nil (parent : Str) :
    matchScopePattern (normalizeScopeSuffix []) parent = false := by
  have hnil : normalizeScopeSuffix [] = [] := by decide
  have hlabel : oneLabelAbove [] parent = none := by
    rw [oneLabelAbove]
    cases hstrip : stripEnd parent [] with
    | none => rfl
    | some rest =>
      obtain ⟨rfl, -⟩ := List.append_eq_nil_iff.mp (stripEnd_eq_some.mp hstrip)
      rfl
  rw [hnil, matchScopePattern]
  change (oneLabelAbove [] parent).isSome = false
  rw [hlabel]
  rfl

theorem any_scope_congr {xs ys : List Str} (h : SameTexts xs ys) (parent : Str) :
    ((xs.map normalizeScopeSuffix).any fun s ↦ matchScopePattern s parent) =
      (ys.map normalizeScopeSuffix).any fun s ↦ matchScopePattern s parent := by
  have hmono : ∀ {us vs : List Str}, SameTexts us vs →
      ((us.map normalizeScopeSuffix).any fun s ↦ matchScopePattern s parent) = true →
      ((vs.map normalizeScopeSuffix).any fun s ↦ matchScopePattern s parent) = true := by
    intro us vs hsame hany
    simp only [List.any_map, List.any_eq_true, Function.comp_apply] at hany ⊢
    obtain ⟨s, hs, hmatch⟩ := hany
    refine ⟨s, hsame.mem hs ?_, hmatch⟩
    rintro rfl
    rw [matchScopePattern_nil] at hmatch
    exact absurd hmatch (by simp)
  exact Bool.eq_iff_iff.mpr ⟨hmono h, hmono h.symm⟩

/-- Every declared regular expression is declared alike in the other table. -/
def RegexesAgree (regexes regexes' : Map Str RegexDef) : Prop :=
  ∀ name d, regexes.lookup name = some d → ∃ d', regexes'.lookup name = some d' ∧ SameRegex d d'

theorem entryRegex_alike (hregex : RegexesAgree regexes regexes') {route : RegexRoute}
    (h : entryRegex regexNew regexes e = some route) :
    ∃ route', entryRegex regexNew regexes' e = some route' ∧ Alike route route' := by
  rw [entryRegex] at h ⊢
  split at h
  · rename_i name hpat
    rw [regexRoute] at h
    split at h
    · exact absurd h (by simp [refuse, Except.toOption])
    · rename_i d hd
      obtain ⟨d', hd', hpattern, hscope⟩ := hregex name d hd
      split at h
      · exact absurd h (by simp [refuse, Except.toOption])
      · rename_i pattern hnew
        obtain rfl := Option.some.inj h
        refine ⟨⟨pattern, e.2, d'.scopeSuffix.map normalizeScopeSuffix⟩, ?_, rfl, rfl,
          any_scope_congr hscope⟩
        rw [regexRoute, hd']
        simp only [← hpattern, hnew]
        rfl
  · exact absurd h (by simp)

theorem Pattern.of_nil : Pattern.of [] = .empty := by decide

/-- Tables with the same entries, and declarations that agree, build routers that agree. -/
theorem sameTable_of_built (h : Built regexNew regexes es r) (h' : Built regexNew regexes' es' r')
    (hdefault : r.default = r'.default) (hes : ∀ e, e.1 ≠ [] → (e ∈ es ↔ e ∈ es'))
    (hregex : RegexesAgree regexes regexes') (hregex' : RegexesAgree regexes' regexes)
    (hord : es.Pairwise fun a b ↦ a.2 ≤ b.2) (hord' : es'.Pairwise fun a b ↦ a.2 ≤ b.2) :
    SameTable r r' := by
  have hkeys : ∀ {kind : Str → Pattern}, (∀ k, kind k ≠ .empty) → ∀ k id,
      KeyIn es kind k id ↔ KeyIn es' kind k id := by
    intro kind hkind k id
    have hne : ∀ e : Str × RouteId, Pattern.of e.1 = kind k → e.1 ≠ [] := by
      rintro e hpat hnil
      rw [hnil, Pattern.of_nil] at hpat
      exact hkind k hpat.symm
    exact ⟨fun ⟨e, he, hpat, hid⟩ ↦ ⟨e, (hes e (hne e hpat)).mp he, hpat, hid⟩,
      fun ⟨e, he, hpat, hid⟩ ↦ ⟨e, (hes e (hne e hpat)).mpr he, hpat, hid⟩⟩
  have hne : ∀ {regexes : Map Str RegexDef} {e : Str × RouteId} {route : RegexRoute},
      entryRegex regexNew regexes e = some route → e.1 ≠ [] := by
    rintro regexes e route he hnil
    rw [entryRegex, hnil, Pattern.of_nil] at he
    exact absurd he (by simp)
  refine ⟨?_, ?_, ?_, hdefault, ?_, ?_, regex_ordered h hord, regex_ordered h' hord'⟩
  · exact fun k ↦ Option.ext fun id ↦ by rw [h.exact, h'.exact, hkeys (by simp)]
  · exact fun k ↦ Option.ext fun id ↦ by rw [h.wildcard, h'.wildcard, hkeys (by simp)]
  · exact fun k ↦ Option.ext fun id ↦ by rw [h.suffix, h'.suffix, hkeys (by simp)]
  · intro route hroute
    rw [h.regex] at hroute
    obtain ⟨e, he, hentry⟩ := List.mem_filterMap.mp hroute
    obtain ⟨route', hentry', halike⟩ := entryRegex_alike hregex hentry
    refine ⟨route', ?_, halike⟩
    rw [h'.regex]
    exact List.mem_filterMap.mpr ⟨e, (hes e (hne hentry)).mp he, hentry'⟩
  · intro route' hroute'
    rw [h'.regex] at hroute'
    obtain ⟨e, he, hentry'⟩ := List.mem_filterMap.mp hroute'
    obtain ⟨route, hentry, halike⟩ := entryRegex_alike hregex' hentry'
    refine ⟨route, ?_, halike.pattern.symm, halike.routeId.symm, fun p ↦ (halike.scope p).symm⟩
    rw [h.regex]
    exact List.mem_filterMap.mpr ⟨e, (hes e (hne hentry')).mpr he, hentry⟩

end Determined

end Router

private theorem exists_of_forall₂ {α β : Type} {R : α → β → Prop} {xs : List α} {ys : List β}
    (h : List.Forall₂ R xs ys) {a : α} (ha : a ∈ xs) : ∃ b ∈ ys, R a b := by
  induction h with
  | nil => exact absurd ha (by simp)
  | cons hab _ ih =>
    rcases List.mem_cons.mp ha with rfl | ha
    · exact ⟨_, List.mem_cons_self, hab⟩
    · obtain ⟨b, hb, hr⟩ := ih ha
      exact ⟨b, List.mem_cons_of_mem _ hb, hr⟩

section Faithful

open Router

variable {patterns patterns' : List (List Str)} {regexes regexes' : Map Str RegexDef}

private theorem mem_entries_of_forall₂
    (h : List.Forall₂ (fun p q ↦ p.2 = q.2 ∧ SameTexts p.1 q.1) patterns.zipIdx patterns'.zipIdx)
    {e : Str × RouteId} (hne : e.1 ≠ []) (he : e ∈ entries patterns) : e ∈ entries patterns' := by
  obtain ⟨pats, hpats, hpat⟩ := mem_entries.mp he
  have hin : (pats, e.2) ∈ patterns.zipIdx := List.mem_zipIdx_iff_getElem?.mpr hpats
  obtain ⟨q, hq, hid, hsame⟩ := exists_of_forall₂ h hin
  rw [List.mem_zipIdx_iff_getElem?, ← hid] at hq
  exact mem_entries.mpr ⟨q.1, hq, hsame.mem hpat hne⟩

private theorem regexesAgree_of_forall₂ {xs ys : List (Σ _ : Str, RegexDef)}
    (hx : ∀ e, e ∈ xs ↔ e ∈ regexes.entries) (hy : ∀ e, e ∈ ys ↔ e ∈ regexes'.entries)
    (h : List.Forall₂ (fun e e' ↦ e.1 = e'.1 ∧ SameRegex e.2 e'.2) xs ys) :
    RegexesAgree regexes regexes' := by
  intro name d hd
  obtain ⟨e', he', rfl, hsame⟩ := exists_of_forall₂ h ((hx _).mpr (AList.mem_lookup_iff.mp hd))
  exact ⟨e'.2, AList.mem_lookup_iff.mpr ((hy e').mp he'), hsame⟩

/-- **The fingerprint is faithful.** Of tables whose rendering can be read back, two with the same
text resolve every host alike, and judge every wildcard alike. -/
theorem fingerprintText_faithful {regexNew : RegexNew} {default default' : Option RouteId}
    {r r' : Router} (hr : build regexNew patterns default regexes = .ok r)
    (hr' : build regexNew patterns' default' regexes' = .ok r')
    (hd : Delimited patterns regexes) (hd' : Delimited patterns' regexes')
    (h : fingerprintText patterns default regexes = fingerprintText patterns' default' regexes') :
    (∀ host, r.matchHost host = r'.matchHost host) ∧
      ∀ parent inScope,
        (r.wildcardConfined parent inScope).isOk = (r'.wildcardConfined parent inScope).isOk := by
  obtain ⟨hroutes, hrest⟩ := routes_of_text hd.pattern hd'.pattern h
  obtain ⟨hdefault, hregexes⟩ := default_of_text hrest
  have hall := regexes_of_text hd hd' hregexes
  obtain ⟨hbuilt, hdef⟩ := built_of_build hr
  obtain ⟨hbuilt', hdef'⟩ := built_of_build hr'
  have hroutes' : List.Forall₂ (fun p q ↦ p.2 = q.2 ∧ SameTexts p.1 q.1) patterns'.zipIdx
      patterns.zipIdx := hroutes.flip.imp fun _ _ hpq ↦ ⟨hpq.1.symm, hpq.2.symm⟩
  have hall' : List.Forall₂ (fun e e' ↦ e.1 = e'.1 ∧ SameRegex e.2 e'.2)
      (regexes'.entries.insertionSort fun a b ↦ a.1 ≤ b.1)
      (regexes.entries.insertionSort fun a b ↦ a.1 ≤ b.1) :=
    hall.flip.imp fun _ _ he ↦ ⟨he.1.symm, he.2.1.symm, he.2.2.symm⟩
  have hsame : SameTable r r' := by
    refine sameTable_of_built hbuilt hbuilt' (by rw [hdef, hdef', hdefault]) ?_ ?_ ?_
      (entries_ordered _) (entries_ordered _)
    · exact fun e hne ↦ ⟨mem_entries_of_forall₂ hroutes hne, mem_entries_of_forall₂ hroutes' hne⟩
    · exact regexesAgree_of_forall₂ (fun _ ↦ List.mem_insertionSort _)
        (fun _ ↦ List.mem_insertionSort _) hall
    · exact regexesAgree_of_forall₂ (fun _ ↦ List.mem_insertionSort _)
        (fun _ ↦ List.mem_insertionSort _) hall'
  exact ⟨hsame.matchHost, hsame.wildcardConfined⟩

end Faithful

section Examples

open Router

/-- No regular expression compiles. -/
private def noRegex : RegexNew := fun _ ↦ .error []

private theorem exists_of_build {regexNew : RegexNew} {patterns : List (List Str)}
    {default : Option RouteId} {regexes : Map Str RegexDef} {α : Type} {f : Router → α} {a : α}
    (h : (build regexNew patterns default regexes).toOption.map f = some a) :
    ∃ r, build regexNew patterns default regexes = .ok r ∧ f r = a := by
  cases hb : build regexNew patterns default regexes with
  | error e =>
    rw [hb] at h
    exact absurd h (by simp [Except.toOption])
  | ok r =>
    rw [hb] at h
    exact ⟨r, rfl, Option.some.inj h⟩

/-- Reordering the patterns of a route changes neither text nor resolution. -/
theorem fingerprintText_faithful_of_reordered :
    ∃ r r', build noRegex [["b.test".toList, ".a.test".toList]] none ∅ = .ok r ∧
      build noRegex [[".a.test".toList, "b.test".toList]] none ∅ = .ok r' ∧
      r.matchHost "x.a.test".toList = some 0 ∧ ∀ host, r.matchHost host = r'.matchHost host := by
  have hrun : (build noRegex [["b.test".toList, ".a.test".toList]] none ∅).toOption.map
      (fun r ↦ r.matchHost "x.a.test".toList) = some (some 0) := by decide +kernel
  have hrun' : (build noRegex [[".a.test".toList, "b.test".toList]] none ∅).toOption.map
      (fun r ↦ r.matchHost "x.a.test".toList) = some (some 0) := by decide +kernel
  obtain ⟨r, hr, hhost⟩ := exists_of_build hrun
  obtain ⟨r', hr', -⟩ := exists_of_build hrun'
  exact ⟨r, r', hr, hr', hhost, (fingerprintText_faithful hr hr'
    ⟨by decide +kernel, by decide +kernel, by decide +kernel, by decide +kernel⟩
    ⟨by decide +kernel, by decide +kernel, by decide +kernel, by decide +kernel⟩
    (by decide +kernel)).1⟩

/-- One pattern with a comma is written like two patterns: `a` is routed by the second table
only. -/
theorem fingerprintText_not_faithful :
    ¬∀ (regexNew : RegexNew) (patterns patterns' : List (List Str))
      (default default' : Option RouteId) (regexes regexes' : Map Str RegexDef) (r r' : Router),
      build regexNew patterns default regexes = .ok r →
      build regexNew patterns' default' regexes' = .ok r' →
      fingerprintText patterns default regexes = fingerprintText patterns' default' regexes' →
      (∀ host, r.matchHost host = r'.matchHost host) ∧
        ∀ parent inScope,
          (r.wildcardConfined parent inScope).isOk = (r'.wildcardConfined parent inScope).isOk := by
  intro h
  have hrun : (build noRegex [["a,b".toList]] none ∅).toOption.map
      (fun r ↦ r.matchHost "a".toList) = some none := by decide +kernel
  have hrun' : (build noRegex [["a".toList, "b".toList]] none ∅).toOption.map
      (fun r ↦ r.matchHost "a".toList) = some (some 0) := by decide +kernel
  obtain ⟨r, hr, hhost⟩ := exists_of_build hrun
  obtain ⟨r', hr', hhost'⟩ := exists_of_build hrun'
  have heq := (h noRegex _ _ none none ∅ ∅ r r' hr hr' (by decide +kernel)).1 "a".toList
  rw [hhost, hhost'] at heq
  exact absurd heq (by simp)

end Examples

end SniGate
