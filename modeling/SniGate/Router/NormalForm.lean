import SniGate.Router.Confined
import SniGate.Text.Trim

/-!
# Normal forms of hosts

Normalizing is not idempotent on every text: what it leaves of `a :80` still ends in a space. A text
is its own normal form when nothing of it is trimmed, cut off or lowered
(`normalize_eq_self_iff`), and below a parent that is its own normal form every key of a router is
(`normalize_below_of_eq_normalize`).
-/

namespace SniGate

namespace Router

section NormalForm

variable {s t l parent rest tail : Str} {c : Char}

theorem normalize_sublist (s : Str) : ∃ t, t.Sublist s ∧ normalize s = asciiLowercase t := by
  refine ⟨_, ?_, rfl⟩
  have htrim : (trim s).Sublist s :=
    (List.rdropWhile_prefix _ _).sublist.trans (List.dropWhile_suffix _).sublist
  refine (List.rdropWhile_prefix _ _).sublist.trans ?_
  split_ifs
  · exact htrim
  · exact (List.takeWhile_prefix _).sublist.trans htrim

theorem count_normalize_le (hc : ∀ d : Char, d.toLower = c ↔ d = c) :
    (normalize s).count c ≤ s.count c := by
  obtain ⟨t, hsub, heq⟩ := normalize_sublist s
  rw [heq, count_asciiLowercase hc]
  exact hsub.count_le c

theorem normalize_bracket : normalize ('[' :: rest) =
    '[' :: asciiLowercase (trimEndMatches '.' (rest.rdropWhile isWhitespace)) := by
  have htrim : trim ('[' :: rest) = '[' :: rest.rdropWhile isWhitespace :=
    trim_append_cons (s := []) (by decide)
  rw [normalize, htrim]
  simp only [List.head?_cons, if_true]
  rw [trimEndMatches, ← List.nil_append ('[' :: _), rdropWhile_append_cons (by decide)]
  rfl

theorem normalize_of_noColon (hs : ':' ∉ s) :
    normalize s = asciiLowercase (trimEndMatches '.' (trim s)) := by
  have hcolon : (trim s).takeWhile (· ≠ ':') = trim s := by
    refine List.takeWhile_eq_self_iff.mpr fun c hc ↦ decide_eq_true fun heq ↦ hs (heq ▸ ?_)
    exact (List.dropWhile_suffix _).subset ((List.rdropWhile_prefix _ _).subset hc)
  rw [normalize, hcolon, ite_self]

theorem normalize_oneColon (hs : ':' ∉ s) : normalize (s ++ ':' :: tail) =
    let start := s.dropWhile isWhitespace
    if start.head? = some '[' then
      asciiLowercase (start ++ ':' :: trimEndMatches '.' (tail.rdropWhile isWhitespace))
    else asciiLowercase (trimEndMatches '.' start) := by
  have hstart : ∀ c ∈ s.dropWhile isWhitespace, decide (c ≠ ':') = true := fun c hc ↦
    decide_eq_true fun heq ↦ hs (heq ▸ (List.dropWhile_suffix _).subset hc)
  have hhead : (s.dropWhile isWhitespace ++ ':' :: tail.rdropWhile isWhitespace).head? =
      some '[' ↔ (s.dropWhile isWhitespace).head? = some '[' := by
    cases s.dropWhile isWhitespace with
    | nil => simp
    | cons c start => simp
  rw [normalize, trim_append_cons (by decide)]
  simp only [hhead]
  split_ifs
  · rw [trimEndMatches, rdropWhile_append_cons (by decide)]
    rfl
  · rw [List.takeWhile_append_of_pos hstart]
    simp

/-- **Normal forms.** -/
theorem normalize_eq_self_iff : normalize s = s ↔
    trim s = s ∧ (s.head? = some '[' ∨ ':' ∉ s) ∧ trimEndMatches '.' s = s ∧
      asciiLowercase s = s := by
  constructor
  · intro h
    rw [normalize] at h
    have hlen := congrArg List.length h
    rw [asciiLowercase, List.length_map] at hlen
    -- each of the steps shortens the text or leaves it
    have hdots := (List.rdropWhile_prefix (· = '.')
      (if (trim s).head? = some '[' then trim s else (trim s).takeWhile (· ≠ ':')))
    have hcut : (if (trim s).head? = some '[' then trim s
        else (trim s).takeWhile (· ≠ ':')).Sublist (trim s) := by
      split_ifs
      · exact List.Sublist.refl _
      · exact (List.takeWhile_prefix _).sublist
    have h₁ := hdots.length_le
    have h₂ := hcut.length_le
    have h₃ := (trim_sublist s).length_le
    rw [trimEndMatches] at hlen
    have htrim : trim s = s := (trim_sublist s).eq_of_length (by omega)
    have hcut' := hcut.eq_of_length (by omega)
    have hdots' := hdots.eq_of_length (by omega)
    rw [hcut', htrim] at hdots'
    rw [hcut', htrim, trimEndMatches, hdots'] at h
    refine ⟨htrim, ?_, hdots', h⟩
    by_cases hhead : s.head? = some '['
    · exact .inl hhead
    · rw [htrim, if_neg hhead] at hcut'
      exact .inr fun hmem ↦ by
        simpa using List.takeWhile_eq_self_iff.mp hcut' _ hmem
  · rintro ⟨htrim, hcolon, hdots, hlower⟩
    have hcut : (if s.head? = some '[' then s else s.takeWhile (· ≠ ':')) = s := by
      split_ifs with hhead
      · rfl
      · have hnone := hcolon.resolve_left hhead
        exact List.takeWhile_eq_self_iff.mpr fun c hc ↦ decide_eq_true fun heq ↦ hnone (heq ▸ hc)
    rw [normalize, htrim, hcut, hdots, hlower]

/-- A text whose first character stays, below a parent that is its own normal form. -/
theorem normalize_below_of_head (hparent : normalize parent = parent) (hne : parent ≠ [])
    (hl : l ≠ []) (hstart : ∀ c ∈ l.head?, ¬isWhitespace c)
    (hcolon : l.head? = some '[' ∨ ':' ∉ l ++ '.' :: parent) (hlower : asciiLowercase l = l) :
    normalize (l ++ '.' :: parent) = l ++ '.' :: parent := by
  obtain ⟨htrim, -, hdots, hlower'⟩ := normalize_eq_self_iff.mp hparent
  have hhead : (l ++ '.' :: parent).head? = l.head? := List.head?_append_of_ne_nil _ hl
  have hlast : (l ++ '.' :: parent).getLast? = parent.getLast? := by
    rw [List.getLast?_append_of_ne_nil _ (by simp), ← List.singleton_append,
      List.getLast?_append_of_ne_nil _ hne]
  refine normalize_eq_self_iff.mpr ⟨trim_eq_self_iff.mpr ⟨?_, ?_⟩, ?_, ?_, ?_⟩
  · rwa [hhead]
  · rw [hlast]
    exact (trim_eq_self_iff.mp htrim).2
  · rwa [hhead]
  · rw [trimEndMatches_eq_self_iff, hlast]
    exact trimEndMatches_eq_self_iff.mp hdots
  · rw [asciiLowercase, List.map_append, List.map_cons]
    exact congrArg₂ (· ++ ·) hlower (congrArg₂ List.cons rfl hlower')

theorem isWhitespace_toLower : isWhitespace c.toLower = isWhitespace c := by
  rw [isWhitespace, isWhitespace, toNat_toLower, decide_eq_decide]
  split_ifs <;> omega

theorem head?_of_isPrefix (hp : s <+: t) (hs : s ≠ []) : t.head? = s.head? := by
  obtain ⟨u, rfl⟩ := hp
  exact List.head?_append_of_ne_nil _ hs

theorem not_isWhitespace_of_head?_trim (h : (trim t).head? = some c) : ¬isWhitespace c := by
  have hne : trim t ≠ [] := fun h0 ↦ by rw [h0] at h; exact absurd h nofun
  have hdrop := List.head?_dropWhile_not isWhitespace t
  rw [head?_of_isPrefix (List.rdropWhile_prefix _ _) hne, ← trim, h] at hdrop
  simpa using hdrop

/-- A normal form starts as the text starts that it is the normal form of. -/
theorem head?_normalize (h : normalize t ≠ []) :
    ∃ c, (trim t).head? = some c ∧ (normalize t).head? = some c.toLower := by
  rw [normalize] at h ⊢
  have hcut : (if (trim t).head? = some '[' then trim t
      else (trim t).takeWhile (· ≠ ':')) <+: trim t := by
    split_ifs
    · exact List.prefix_rfl
    · exact List.takeWhile_prefix _
  have hdots : trimEndMatches '.' (if (trim t).head? = some '[' then trim t
      else (trim t).takeWhile (· ≠ ':')) ≠ [] := by simpa [asciiLowercase] using h
  have hhead := head?_of_isPrefix ((List.rdropWhile_prefix _ _).trans hcut) hdots
  rw [asciiLowercase, List.head?_map]
  obtain ⟨c, rest, hc⟩ := List.exists_cons_of_ne_nil hdots
  rw [trimEndMatches] at hc
  rw [hc] at hhead
  rw [trimEndMatches, hc]
  exact ⟨c, hhead, rfl⟩

theorem notMem_normalize (h : (trim t).head? ≠ some '[') : ':' ∉ normalize t := by
  rw [normalize, if_neg h]
  intro hmem
  obtain ⟨d, hd, hcolon⟩ := List.mem_map.mp hmem
  have hd' := List.mem_takeWhile_imp ((List.rdropWhile_prefix _ _).subset hd)
  rw [(toLower_eq_iff (by decide)).mp hcolon] at hd'
  exact absurd hd' (by simp)

theorem asciiLowercase_normalize : asciiLowercase (normalize t) = normalize t := by
  rw [normalize]
  exact asciiLowercase_idem

/-- **Keys.** A normal form below a parent that is its own normal form is its own normal form. -/
theorem normalize_below_of_eq_normalize (hparent : normalize parent = parent) (hne : parent ≠ [])
    (hl : l ≠ []) (h : l ++ '.' :: parent = normalize t) :
    normalize (l ++ '.' :: parent) = l ++ '.' :: parent := by
  have hhead : (l ++ '.' :: parent).head? = l.head? := List.head?_append_of_ne_nil _ hl
  obtain ⟨c, hc, hnorm⟩ := head?_normalize (t := t) (by rw [← h]; simp)
  rw [← h, hhead] at hnorm
  refine normalize_below_of_head hparent hne hl ?_ ?_ ?_
  · intro d hd
    rw [hnorm] at hd
    rw [← Option.some.inj hd, isWhitespace_toLower]
    exact not_isWhitespace_of_head?_trim hc
  · by_cases hbracket : (trim t).head? = some '['
    · rw [hc] at hbracket
      rw [hnorm, Option.some.inj hbracket]
      exact .inl rfl
    · rw [h]
      exact .inr (notMem_normalize hbracket)
  · have hlower := asciiLowercase_normalize (t := t)
    rw [← h, asciiLowercase, List.map_append] at hlower
    exact List.append_inj_left hlower (List.length_map _)

end NormalForm

end Router

end SniGate
