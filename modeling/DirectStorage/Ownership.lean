/-
DirectStorage/Ownership.lean

Exclusive ownership of resources.

A table `held : ω → Option ρ` says what each owner holds, and `key : ρ → κ`
names the resource a value stands for.  The table is *exclusive* if no
resource has two owners.  Programs change such a table in three ways: a fresh
resource is granted, a resource moves from one owner to another, an owner
drops what it holds.  Each keeps the table exclusive.
-/
import Mathlib.Logic.Function.Basic
import Mathlib.Tactic.Common

namespace DirectStorage

open Function

variable {ω ρ κ : Type*} [DecidableEq ω]

/-- No resource is held by two owners. -/
def Exclusive (key : ρ → κ) (held : ω → Option ρ) : Prop :=
  ∀ o o' p p', held o = some p → held o' = some p' → key p = key p' → o = o'

/-- What a table holds after one entry was overwritten. -/
theorem held_update_some {held : ω → Option ρ} {o o' : ω} {e : Option ρ} {p : ρ}
    (h : update held o e o' = some p) : (o' = o ∧ e = some p) ∨ (o' ≠ o ∧ held o' = some p) := by
  by_cases heq : o' = o
  · subst heq
    rw [update_self] at h
    exact Or.inl ⟨rfl, h⟩
  · rw [update_of_ne heq] at h
    exact Or.inr ⟨heq, h⟩

namespace Exclusive

variable {key : ρ → κ} {held : ω → Option ρ}

/-- A resource nobody holds may be given to anybody. -/
theorem grant (h : Exclusive key held) {o : ω} {p : ρ}
    (hnew : ∀ o' p', held o' = some p' → key p' ≠ key p) :
    Exclusive key (update held o (some p)) := by
  intro o₁ o₂ p₁ p₂ h₁ h₂ hkey
  rcases held_update_some h₁ with ⟨rfl, e₁⟩ | ⟨-, e₁⟩ <;>
    rcases held_update_some h₂ with ⟨rfl, e₂⟩ | ⟨-, e₂⟩
  · rfl
  · obtain rfl := Option.some.inj e₁
    exact absurd hkey.symm (hnew _ _ e₂)
  · obtain rfl := Option.some.inj e₂
    exact absurd hkey (hnew _ _ e₁)
  · exact h _ _ _ _ e₁ e₂ hkey

/-- An owner may drop what it holds. -/
theorem drop (h : Exclusive key held) (o : ω) : Exclusive key (update held o none) := by
  intro o₁ o₂ p₁ p₂ h₁ h₂ hkey
  rcases held_update_some h₁ with ⟨-, e₁⟩ | ⟨-, e₁⟩
  · cases e₁
  rcases held_update_some h₂ with ⟨-, e₂⟩ | ⟨-, e₂⟩
  · cases e₂
  exact h _ _ _ _ e₁ e₂ hkey

/-- After an owner dropped its resource, nobody holds it. -/
theorem drop_unheld (h : Exclusive key held) {o : ω} {p : ρ} (ho : held o = some p) :
    ∀ o' p', update held o none o' = some p' → key p' ≠ key p := by
  intro o' p' h' hkey
  rcases held_update_some h' with ⟨-, e⟩ | ⟨hne, e⟩
  · cases e
  · exact hne (h _ _ _ _ e ho hkey)

/-- What an owner holds may move to another one. -/
theorem move (h : Exclusive key held) {o : ω} {p : ρ} (ho : held o = some p) (o' : ω) :
    Exclusive key (update (update held o none) o' (some p)) :=
  (h.drop o).grant (h.drop_unheld ho)

end Exclusive

end DirectStorage
