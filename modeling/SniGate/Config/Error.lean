import SniGate.Text.Basic

/-!
# Configuration errors

A rejected configuration names the scope and the field at fault in its text.
-/

namespace SniGate

/-- Why a configuration is refused; failures to read or to parse the file are not modelled. -/
inductive ConfigError
  | invalid (text : Str)
deriving DecidableEq, Repr

/-- `Display for ConfigError`. -/
def ConfigError.display : ConfigError → Str
  | invalid text => "invalid config: ".toList ++ text

/-- An error when a condition holds. -/
def failIf {ε : Type} (c : Prop) [Decidable c] (e : ε) : Except ε Unit :=
  if c then .error e else .ok ()

theorem failIf_eq_ok {ε : Type} {c : Prop} [Decidable c] {e : ε} : failIf c e = .ok () ↔ ¬c := by
  rw [failIf]
  split_ifs with h
  · simp [h]
  · simp [h]

/-- A refusal with the given text, its parts joined. -/
def refuse {α : Type} (parts : List Str) : Except ConfigError α := .error (.invalid parts.flatten)

/-- A refusal when a condition holds. -/
abbrev refuseIf (c : Prop) [Decidable c] (parts : List Str) : Except ConfigError Unit :=
  failIf c (.invalid parts.flatten)

theorem bind_eq_ok {ε α β : Type} {x : Except ε α} {f : α → Except ε β} {b : β} :
    (x >>= f) = .ok b ↔ ∃ a, x = .ok a ∧ f a = .ok b := by
  cases x with
  | error e =>
    exact ⟨fun h ↦ absurd h (by simp [bind, Except.bind]), fun ⟨_, h, _⟩ ↦ absurd h (by simp)⟩
  | ok a => exact ⟨fun h ↦ ⟨a, rfl, h⟩, fun ⟨_, h, hf⟩ ↦ Except.ok.inj h ▸ hf⟩

theorem forM_eq_ok {ε α : Type} {xs : List α} {f : α → Except ε Unit} :
    xs.forM f = .ok () ↔ ∀ x ∈ xs, f x = .ok () := by
  induction xs with
  | nil => exact ⟨fun _ x hx ↦ absurd hx (by simp), fun _ ↦ rfl⟩
  | cons x xs ih =>
    change (f x >>= fun _ ↦ xs.forM f) = .ok () ↔ _
    rw [bind_eq_ok, List.forall_mem_cons, ← ih]
    exact ⟨fun ⟨_, hx, hxs⟩ ↦ ⟨hx, hxs⟩, fun ⟨hx, hxs⟩ ↦ ⟨(), hx, hxs⟩⟩

theorem eq_ok_of_mapError {ε ε' α : Type} {x : Except ε α} {f : ε → ε'} {a : α}
    (h : x.mapError f = .ok a) : x = .ok a := by
  cases x with
  | error e => exact absurd h (by simp [Except.mapError])
  | ok a' => exact congrArg Except.ok (Except.ok.inj h)

theorem eq_ok_of_toOption {ε α : Type} {x : Except ε α} {a : α} (h : x.toOption = some a) :
    x = .ok a := by
  cases x with
  | error e => exact absurd h (by simp [Except.toOption])
  | ok a' => exact congrArg Except.ok (Option.some.inj h)

end SniGate
