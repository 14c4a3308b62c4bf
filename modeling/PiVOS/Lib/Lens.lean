-- SUMMARY: A part of a state, and what acts on the part as something that acts on the whole.
import Mathlib.Data.Option.Basic

/-!
# Lenses

A lens names a part `S` of a state `T`. An action on the part, which may fail and which
returns a value, becomes one on the whole that leaves the rest alone.
-/

structure Lens (T S : Type) where
  get : T → S
  set : T → S → T
  get_set : ∀ t s, get (set t s) = s
  set_get : ∀ t, set t (get t) = t
  set_set : ∀ t s s', set (set t s) s' = set t s'

namespace Lens

variable {T S α : Type} (l : Lens T S)

/-- `f` on the part. -/
def lift (f : S → Option (α × S)) (t : T) : Option (α × T) :=
  (f (l.get t)).map fun (a, s) => (a, l.set t s)

theorem lift_eq_some {f : S → Option (α × S)} {t t' : T} {a : α} :
    l.lift f t = some (a, t') ↔ ∃ s, f (l.get t) = some (a, s) ∧ t' = l.set t s := by
  rw [lift, Option.map_eq_some_iff]
  constructor
  · rintro ⟨⟨a', s⟩, hf, heq⟩
    obtain ⟨rfl, rfl⟩ := Prod.mk.inj heq
    exact ⟨s, hf, rfl⟩
  · rintro ⟨s, hf, rfl⟩
    exact ⟨(a, s), hf, rfl⟩

/-- What returns without a change does so on the whole. -/
theorem lift_pure (a : α) (t : T) : l.lift (fun s => some (a, s)) t = some (a, t) := by
  simp only [lift, Option.map_some, l.set_get]

theorem lift_none (t : T) : l.lift (fun _ => none) t = (none : Option (α × T)) := rfl

/-- Changing the value is the same before and after. -/
theorem lift_map {β : Type} (f : S → Option (α × S)) (g : α → β) (t : T) :
    l.lift (fun s => (f s).map fun (a, s) => (g a, s)) t = (l.lift f t).map fun (a, t) => (g a, t) := by
  rw [lift, lift, Option.map_map, Option.map_map]
  rfl

end Lens
