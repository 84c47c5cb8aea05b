import Mathlib.Logic.Function.Basic

/-!
# Overwriting and replaying

A change of a map overwrites if at every key it leaves a value that does not depend on the map, or
the map as it is. Such a change can be replayed: applied to any mixture of the map before and the map
after, it gives the map after.
-/

namespace Artax.Util

variable {κ β : Type*}

/-- At every key, a fixed value or no change. -/
def Overwrites (f : (κ → β) → κ → β) : Prop :=
  ∀ k, (∃ v, ∀ m, f m k = v) ∨ ∀ m, f m k = m k

namespace Overwrites

theorem id : Overwrites (fun m : κ → β => m) := fun _ => .inr fun _ => rfl

theorem update [DecidableEq κ] (k : κ) (v : β) : Overwrites (fun m => Function.update m k v) := by
  intro j
  by_cases same : j = k
  · subst same
    exact .inl ⟨v, fun m => Function.update_self ..⟩
  · exact .inr fun m => Function.update_of_ne same ..

variable {f g : (κ → β) → κ → β}

theorem comp (first : Overwrites f) (second : Overwrites g) :
    Overwrites (fun m => g (f m)) := by
  intro k
  rcases second k with ⟨v, fixed⟩ | kept
  · exact .inl ⟨v, fun m => fixed _⟩
  · rcases first k with ⟨v, fixed⟩ | kept'
    · exact .inl ⟨v, fun m => (kept (f m)).trans (fixed m)⟩
    · exact .inr fun m => (kept (f m)).trans (kept' m)

theorem ite (c : Prop) [Decidable c] (yes : Overwrites f) (no : Overwrites g) :
    Overwrites (fun m => if c then f m else g m) := by
  by_cases holds : c
  · simpa only [if_pos holds] using yes
  · simpa only [if_neg holds] using no

theorem foldl {ι : Type*} {f : (κ → β) → ι → κ → β} (each : ∀ i, Overwrites fun m => f m i)
    (l : List ι) : Overwrites fun m => l.foldl f m := by
  induction l with
  | nil => exact .id
  | cons i rest ih => exact (each i).comp ih

theorem replay (overwrites : Overwrites f) {before mixed : κ → β}
    (mixture : ∀ k, mixed k = before k ∨ mixed k = f before k) : f mixed = f before := by
  funext k
  rcases overwrites k with ⟨v, fixed⟩ | kept
  · rw [fixed, fixed]
  · rw [kept, kept]
    rcases mixture k with same | same
    · exact same
    · rw [same, kept]

end Overwrites
end Artax.Util
