import SniGate.Bytes.Basic

/-!
# Fronts of texts

A byte string that comes in pieces may stop inside a character. It is the front of a text when
something can still follow it so that the whole decodes; then the bytes that finish the character it
stops in are enough, and those are never ASCII (`FrontOfText.exists_completion`).
-/

namespace SniGate

/-! ## Encoding and decoding -/

@[simp] theorem toUtf8_append (s t : Str) : toUtf8 (s ++ t) = toUtf8 s ++ toUtf8 t :=
  List.flatMap_append

theorem toUtf8_of_fromUtf8 {b : Bytes} {s : Str} (h : fromUtf8 b = some s) : toUtf8 s = b := by
  rw [fromUtf8, Option.map_eq_some_iff] at h
  obtain ⟨chars, hchars, rfl⟩ := h
  obtain ⟨l, hl⟩ := ByteArray.isSome_utf8Decode?_iff.mp (Option.isSome_iff_exists.mpr ⟨_, hchars⟩)
  rw [hl, List.utf8Decode?_utf8Encode] at hchars
  obtain rfl := Option.some.inj hchars
  rw [utf8Encode_eq_mk, ByteArray.mk.injEq] at hl
  exact (List.toArray_inj hl).symm

theorem exists_utf8EncodeChar_of_ascii {x : UInt8} (h : x < 0x80) :
    ∃ c, String.utf8EncodeChar c = [x] := by
  have hx : x.toNat < 128 := h
  have hval : (Char.ofNat x.toNat).val.toNat = x.toNat := by
    rw [Char.ofNat, dif_pos (.inl (by omega))]
    rfl
  refine ⟨Char.ofNat x.toNat, ?_⟩
  rw [String.utf8EncodeChar, hval]
  simp [show x.toNat ≤ 127 by omega]

theorem exists_toUtf8_of_ascii {b : Bytes} (h : ∀ x ∈ b, x < 0x80) : ∃ s, b = toUtf8 s := by
  induction b with
  | nil => exact ⟨[], rfl⟩
  | cons x b ih =>
    obtain ⟨s, hs⟩ := ih fun y hy ↦ h y (List.mem_cons_of_mem _ hy)
    obtain ⟨c, hc⟩ := exists_utf8EncodeChar_of_ascii (h x List.mem_cons_self)
    exact ⟨c :: s, by rw [toUtf8, List.flatMap_cons, hc, hs]; rfl⟩

theorem le_of_mem_utf8EncodeChar {c : Char} {x : UInt8} (h : x ∈ String.utf8EncodeChar c) :
    (String.utf8EncodeChar c).length = 1 ∨ 0x80 ≤ x := by
  have hlead : ∀ n, 128 ≤ n → n < 256 → (0x80 : UInt8) ≤ UInt8.ofNat n := by
    intro n hn hlt
    rw [UInt8.le_iff_toNat_le, UInt8.toNat_ofNat', Nat.mod_eq_of_lt hlt]
    exact hn
  rw [String.utf8EncodeChar] at h ⊢
  split_ifs at h ⊢ with h1 h2 h3
  · exact .inl rfl
  all_goals
    simp only [List.mem_cons, List.not_mem_nil, or_false] at h
    right
  · rcases h with rfl | rfl
    all_goals exact hlead _ (by omega) (by omega)
  · rcases h with rfl | rfl | rfl
    all_goals exact hlead _ (by omega) (by omega)
  · rcases h with rfl | rfl | rfl | rfl
    all_goals exact hlead _ (by omega) (by omega)

theorem fromUtf8_eq_some {b : Bytes} {s : Str} : fromUtf8 b = some s ↔ toUtf8 s = b :=
  ⟨toUtf8_of_fromUtf8, fun h ↦ by rw [← h, fromUtf8_toUtf8]⟩

theorem toUtf8_cons (c : Char) (s : Str) :
    toUtf8 (c :: s) = String.utf8EncodeChar c ++ toUtf8 s := rfl

theorem lt_of_utf8EncodeChar {c : Char} {x : UInt8} (h : String.utf8EncodeChar c = [x]) :
    x < 0x80 := by
  rw [String.utf8EncodeChar] at h
  split_ifs at h with h1
  · rw [← List.singleton_inj.mp h, UInt8.lt_iff_toNat_lt, UInt8.toNat_ofNat']
    exact (Nat.mod_le _ _).trans_lt (Nat.lt_succ_of_le h1)
  all_goals exact absurd (congrArg List.length h) (by simp)

/-- No character goes across an ASCII byte. -/
theorem exists_of_toUtf8_eq_append {s : Str} {a b : Bytes} {x : UInt8} (hx : x < 0x80)
    (h : toUtf8 s = a ++ x :: b) : ∃ s₁ c s₂, s = s₁ ++ c :: s₂ ∧ toUtf8 s₁ = a ∧
      String.utf8EncodeChar c = [x] ∧ toUtf8 s₂ = b := by
  induction s generalizing a with
  | nil => exact absurd h (by simp [toUtf8])
  | cons ch s ih =>
    rw [toUtf8_cons] at h
    rcases List.append_eq_append_iff.mp h with ⟨w, rfl, hw⟩ | ⟨w, henc, hw⟩
    · obtain ⟨s₁, c, s₂, rfl, rfl, hc, hs₂⟩ := ih hw
      exact ⟨ch :: s₁, c, s₂, rfl, rfl, hc, hs₂⟩
    cases w with
    | nil =>
      obtain ⟨s₁, c, s₂, rfl, hs₁, hc, hs₂⟩ := @ih [] hw.symm
      rw [List.append_nil] at henc
      exact ⟨ch :: s₁, c, s₂, rfl, by rw [toUtf8_cons, hs₁, List.append_nil, henc], hc, hs₂⟩
    | cons y w =>
      obtain ⟨rfl, rfl⟩ := List.cons.inj hw
      -- the byte is in the encoding of `ch`, so it is all of it
      have hone : (String.utf8EncodeChar ch).length = 1 :=
        (le_of_mem_utf8EncodeChar (henc ▸ List.mem_append_right _ List.mem_cons_self)).resolve_right
          (UInt8.not_le.mpr hx)
      rw [henc, List.length_append, List.length_cons] at hone
      obtain rfl := List.eq_nil_of_length_eq_zero (show a.length = 0 by omega)
      obtain rfl := List.eq_nil_of_length_eq_zero (show w.length = 0 by omega)
      exact ⟨[], ch, s, rfl, rfl, henc, rfl⟩

/-- So what is before and after it decodes by itself. -/
theorem fromUtf8_append_cons {a b : Bytes} {c : Char} {x : UInt8}
    (hc : String.utf8EncodeChar c = [x]) : fromUtf8 (a ++ x :: b) =
      (fromUtf8 a).bind fun s ↦ (fromUtf8 b).map fun t ↦ s ++ c :: t := by
  refine Option.ext fun s ↦ ?_
  rw [fromUtf8_eq_some, Option.bind_eq_some_iff]
  constructor
  · intro h
    obtain ⟨s₁, c', s₂, rfl, rfl, hc', rfl⟩ :=
      exists_of_toUtf8_eq_append (lt_of_utf8EncodeChar hc) h
    have heq : [c'] = [c] := by
      rw [← Option.some_inj, ← fromUtf8_toUtf8, ← fromUtf8_toUtf8 [c], toUtf8_cons, toUtf8_cons, hc,
        hc']
    exact ⟨s₁, fromUtf8_toUtf8 _, by rw [fromUtf8_toUtf8, List.singleton_inj.mp heq]; rfl⟩
  · rintro ⟨s₁, hs₁, h⟩
    obtain ⟨s₂, hs₂, rfl⟩ := Option.map_eq_some_iff.mp h
    rw [toUtf8_append, toUtf8_cons, hc, toUtf8_of_fromUtf8 hs₁, toUtf8_of_fromUtf8 hs₂]
    rfl

theorem fromUtf8_singleton {x : UInt8} (hx : 0x80 ≤ x) : fromUtf8 [x] = none := by
  refine Option.eq_none_iff_forall_ne_some.mpr fun s hs ↦ ?_
  rw [fromUtf8_eq_some] at hs
  cases s with
  | nil => exact absurd hs (by simp [toUtf8])
  | cons c s =>
    rw [toUtf8_cons] at hs
    have hpos : 0 < (String.utf8EncodeChar c).length := by
      rw [String.length_utf8EncodeChar]
      exact c.utf8Size_pos
    have hlen := congrArg List.length hs
    rw [List.length_append, List.length_singleton] at hlen
    have hnil := List.eq_nil_of_length_eq_zero (show (toUtf8 s).length = 0 by omega)
    rw [hnil, List.append_nil] at hs
    exact absurd (lt_of_utf8EncodeChar hs) (UInt8.not_lt.mpr hx)

theorem fromUtf8_concat {b : Bytes} {x : UInt8} (hb : ∀ y ∈ b, y < 0x80) (hx : 0x80 ≤ x) :
    fromUtf8 (b ++ [x]) = none := by
  induction b with
  | nil => exact fromUtf8_singleton hx
  | cons y b ih =>
    obtain ⟨c, hc⟩ := exists_utf8EncodeChar_of_ascii (hb y List.mem_cons_self)
    have hsplit : fromUtf8 ([] ++ y :: (b ++ [x])) = _ := fromUtf8_append_cons hc
    rw [ih fun z hz ↦ hb z (List.mem_cons_of_mem _ hz)] at hsplit
    rw [List.cons_append, ← List.nil_append (y :: (b ++ [x])), hsplit]
    cases fromUtf8 [] <;> rfl

/-! ## Fronts -/

/-- Something can follow `b` so that the whole is a text. -/
def FrontOfText (b : Bytes) : Prop := ∃ t, (fromUtf8 (b ++ t)).isSome

theorem frontOfText_nil : FrontOfText [] := ⟨[], by decide⟩

/-- A front of a text is finished by bytes that are not ASCII. -/
theorem FrontOfText.exists_completion {b : Bytes} (h : FrontOfText b) :
    ∃ c s, b ++ c = toUtf8 s ∧ ∀ x ∈ c, 0x80 ≤ x := by
  obtain ⟨t, ht⟩ := h
  obtain ⟨chars, hchars⟩ := Option.isSome_iff_exists.mp ht
  have hbytes := toUtf8_of_fromUtf8 hchars
  clear ht hchars
  induction chars generalizing b with
  | nil =>
    obtain ⟨rfl, -⟩ := List.append_eq_nil_iff.mp hbytes.symm
    exact ⟨[], [], rfl, by simp⟩
  | cons ch chars ih =>
    rw [toUtf8, List.flatMap_cons] at hbytes
    rcases List.append_eq_append_iff.mp hbytes with ⟨w, rfl, hw⟩ | ⟨w, henc, -⟩
    · obtain ⟨c, s, hcs, hc⟩ := ih hw
      refine ⟨c, ch :: s, ?_, hc⟩
      rw [List.append_assoc, hcs]
      rfl
    · -- `b` stops inside this character, or before it
      by_cases hb : b = []
      · exact ⟨[], [], by rw [hb]; rfl, by simp⟩
      refine ⟨w, [ch], by rw [← henc, toUtf8, List.flatMap_singleton], fun x hx ↦ ?_⟩
      have hmem : x ∈ String.utf8EncodeChar ch := henc ▸ List.mem_append_right _ hx
      refine (le_of_mem_utf8EncodeChar hmem).resolve_left fun hone ↦ ?_
      have hlen := congrArg List.length henc
      rw [List.length_append] at hlen
      have hb' := List.length_pos_of_ne_nil hb
      have hw := List.length_pos_of_mem hx
      omega

end SniGate
