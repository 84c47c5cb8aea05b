import Mathlib.Data.List.Basic

/-!
# Trees of parent links

Nodes that know their parent and their height above a root. The ancestors of a node form a line, and
two nodes have a last one in common. A walk up to the first node with a property that ancestors
inherit passes exactly the ancestors without it.
-/

namespace Artax.Util

open List Option

/-- Nodes with parents, whose heights count the steps from a root. -/
structure ParentTree (α : Type*) where
  parent : α → Option α
  height : α → Nat
  height_parent : ∀ a p, parent a = some p → height a = height p + 1

namespace ParentTree

variable {α : Type*} (T : ParentTree α)

def up : Nat → α → Option α
  | 0, a => some a
  | n + 1, a => (T.parent a).bind (up n)

/-- A node is an ancestor of another or the node itself. -/
def Anc (a b : α) : Prop := ∃ n, T.up n b = some a

def ancestorAt (b : α) (height : Nat) : Option α :=
  if height ≤ T.height b then T.up (T.height b - height) b else none

def steps : Nat → α → List α
  | 0, a => [a]
  | n + 1, a => a :: (match T.parent a with | none => [] | some p => steps n p)

def line (b : α) : List α := T.steps (T.height b) b

variable {T} {a b c p : α} {stop : α → Bool}

theorem parent_of_height_zero (root : T.height a = 0) : T.parent a = none := by
  cases found : T.parent a with
  | none => rfl
  | some p =>
    have := T.height_parent a p found
    omega

theorem induct {motive : α → Prop} (step : ∀ b, (∀ p, T.parent b = some p → motive p) → motive b)
    (b : α) : motive b := by
  induction h : T.height b using Nat.strongRecOn generalizing b with
  | _ n ih =>
    refine step b fun p found => ih (T.height p) ?_ p rfl
    have := T.height_parent b p found
    omega

theorem line_eq (b : α) :
    T.line b = b :: (match T.parent b with | none => [] | some p => T.line p) := by
  unfold line
  cases found : T.parent b with
  | none =>
    cases T.height b with
    | zero => rfl
    | succ n => simp [steps, found]
  | some p =>
    rw [T.height_parent b p found]
    simp [steps, found]

theorem line_of_root (root : T.parent b = none) : T.line b = [b] := by
  rw [line_eq, root]

theorem line_of_parent (found : T.parent b = some p) : T.line b = b :: T.line p := by
  rw [line_eq, found]

@[refl] theorem Anc.refl (a : α) : T.Anc a a := ⟨0, rfl⟩

theorem Anc.parent (found : T.parent b = some p) : T.Anc p b := ⟨1, by simp [up, found]⟩

theorem up_add (m n : Nat) (b : α) : T.up (m + n) b = (T.up m b).bind (T.up n) := by
  induction m generalizing b with
  | zero => simp [up]
  | succ m ih =>
    rw [Nat.succ_add, up, up, bind_assoc]
    cases T.parent b with
    | none => rfl
    | some p => exact ih p

theorem Anc.trans (ab : T.Anc a b) (bc : T.Anc b c) : T.Anc a c := by
  obtain ⟨m, ab⟩ := ab
  obtain ⟨n, bc⟩ := bc
  exact ⟨n + m, by rw [up_add, bc, bind_some, ab]⟩

theorem anc_iff : T.Anc a b ↔ a = b ∨ ∃ p, T.parent b = some p ∧ T.Anc a p := by
  constructor
  · rintro ⟨n, up⟩
    cases n with
    | zero => exact .inl (some.inj up).symm
    | succ n =>
      obtain ⟨p, found, up⟩ := bind_eq_some_iff.1 up
      exact .inr ⟨p, found, n, up⟩
  · rintro (rfl | ⟨p, found, anc⟩)
    · exact .refl a
    · exact anc.trans (.parent found)

theorem anc_of_root (root : T.parent b = none) : T.Anc a b ↔ a = b := by
  rw [anc_iff, root]
  simp

theorem anc_of_parent (found : T.parent b = some p) : T.Anc a b ↔ a = b ∨ T.Anc a p := by
  rw [anc_iff, found]
  simp

theorem mem_line : a ∈ T.line b ↔ T.Anc a b := by
  induction b using T.induct with
  | _ b ih =>
    cases found : T.parent b with
    | none => rw [line_of_root found, anc_of_root found, mem_singleton]
    | some p => rw [line_of_parent found, anc_of_parent found, mem_cons, ih p found]

theorem height_of_up {n : Nat} (up : T.up n b = some a) : T.height b = T.height a + n := by
  induction n generalizing b with
  | zero =>
    cases up
    rfl
  | succ n ih =>
    obtain ⟨p, found, up⟩ := bind_eq_some_iff.1 up
    rw [T.height_parent b p found, ih up, Nat.add_assoc]

theorem Anc.height_le (anc : T.Anc a b) : T.height a ≤ T.height b := by
  obtain ⟨n, up⟩ := anc
  rw [height_of_up up]
  exact Nat.le_add_right _ _

theorem Anc.eq_of_height (anc : T.Anc a b) (same : T.height b ≤ T.height a) : a = b := by
  obtain ⟨n, up⟩ := anc
  have := height_of_up up
  obtain rfl : n = 0 := by omega
  exact (some.inj up).symm

theorem Anc.antisymm (ab : T.Anc a b) (ba : T.Anc b a) : a = b := ab.eq_of_height ba.height_le

theorem ancestorAt_eq_some {height : Nat} :
    T.ancestorAt b height = some a ↔ T.Anc a b ∧ T.height a = height := by
  unfold ancestorAt
  constructor
  · intro found
    split at found
    · have := height_of_up found
      exact ⟨⟨_, found⟩, by omega⟩
    · cases found
  · rintro ⟨⟨n, up⟩, rfl⟩
    have height := height_of_up up
    rw [if_pos (by omega), show T.height b - T.height a = n by omega]
    exact up

instance [DecidableEq α] (a b : α) : Decidable (T.Anc a b) :=
  decidable_of_iff (T.ancestorAt b (T.height a) = some a) (by simp [ancestorAt_eq_some])

theorem Anc.of_height_le (ac : T.Anc a c) (bc : T.Anc b c) (le : T.height a ≤ T.height b) :
    T.Anc a b := by
  induction c using T.induct with
  | _ c ih =>
    rcases anc_iff.1 bc with rfl | ⟨p, found, bp⟩
    · exact ac
    · rcases (anc_of_parent found).1 ac with rfl | ap
      · have := bp.height_le
        have := T.height_parent a p found
        omega
      · exact ih p found ap bp

theorem Anc.total (ac : T.Anc a c) (bc : T.Anc b c) : T.Anc a b ∨ T.Anc b a := by
  rcases Nat.le_total (T.height a) (T.height b) with le | le
  · exact .inl (ac.of_height_le bc le)
  · exact .inr (bc.of_height_le ac le)

theorem mem_takeWhile_ne [DecidableEq α] {f : α} (anc : T.Anc f b) :
    a ∈ (T.line b).takeWhile (fun x => decide (x ≠ f)) ↔ T.Anc a b ∧ ¬ T.Anc a f := by
  induction b using T.induct with
  | _ b ih =>
    by_cases here : b = f
    · rw [line_eq, takeWhile_cons_of_neg (by simp [here])]
      simp [here]
    · rcases anc_iff.1 anc with same | ⟨p, found, ancP⟩
      · exact (here same.symm).elim
      · rw [line_of_parent found, takeWhile_cons_of_pos (by simp [here]), mem_cons,
          ih p found ancP, anc_of_parent found]
        constructor
        · rintro (rfl | ⟨ancA, above⟩)
          · exact ⟨.inl rfl, fun below => here (below.antisymm anc)⟩
          · exact ⟨.inr ancA, above⟩
        · rintro ⟨rfl | ancA, above⟩
          · exact .inl rfl
          · exact .inr ⟨ancA, above⟩

theorem Anc.of_mem_takeWhile_ne [DecidableEq α] {f : α} (anc : T.Anc f b)
    (mem : a ∈ (T.line b).takeWhile fun x => decide (x ≠ f)) : T.Anc f a := by
  obtain ⟨ancA, above⟩ := (mem_takeWhile_ne anc).1 mem
  exact (ancA.total anc).resolve_left above

theorem mem_takeWhile_line (inherited : ∀ x y, stop x → T.Anc y x → stop y) :
    a ∈ (T.line b).takeWhile (fun x => !stop x) ↔ T.Anc a b ∧ stop a = false := by
  induction b using T.induct with
  | _ b ih =>
    cases here : stop b with
    | true =>
      rw [line_eq, takeWhile_cons_of_neg (by simp [here])]
      simp only [not_mem_nil, false_iff, not_and, Bool.not_eq_false]
      exact fun anc => inherited b a here anc
    | false =>
      rw [line_eq, takeWhile_cons_of_pos (by simp [here]), mem_cons]
      cases found : T.parent b with
      | none =>
        rw [anc_of_root found]
        constructor
        · rintro (rfl | absurd)
          · exact ⟨rfl, here⟩
          · cases absurd
        · exact fun ⟨same, _⟩ => .inl same
      | some p =>
        rw [anc_of_parent found]
        rw [ih p found]
        constructor
        · rintro (rfl | ⟨anc, isFalse⟩)
          · exact ⟨.inl rfl, here⟩
          · exact ⟨.inr anc, isFalse⟩
        · rintro ⟨rfl | anc, isFalse⟩
          · exact .inl rfl
          · exact .inr ⟨anc, isFalse⟩

/-- The node at which a walk up ends has the property, and every ancestor that has it is an ancestor
of that node. -/
theorem find?_line_eq_some (found : (T.line b).find? stop = some a) :
    T.Anc a b ∧ stop a ∧ ∀ x, T.Anc x b → stop x → T.Anc x a := by
  induction b using T.induct with
  | _ b ih =>
    rw [line_eq] at found
    cases here : stop b with
    | true =>
      rw [find?_cons_of_pos here] at found
      cases found
      exact ⟨.refl _, here, fun x anc _ => anc⟩
    | false =>
      rw [find?_cons_of_neg (by simp [here])] at found
      cases parent : T.parent b with
      | none =>
        rw [parent] at found
        cases found
      | some p =>
        rw [parent] at found
        obtain ⟨anc, isTrue, last⟩ := ih p parent found
        refine ⟨anc.trans (.parent parent), isTrue, fun x ancX isTrueX => ?_⟩
        rcases (anc_of_parent parent).1 ancX with rfl | ancX
        · rw [here] at isTrueX
          cases isTrueX
        · exact last x ancX isTrueX

theorem exists_find?_line (anc : T.Anc a b) (isTrue : stop a) :
    ∃ f, (T.line b).find? stop = some f := by
  rw [← isSome_iff_exists, find?_isSome]
  exact ⟨a, mem_line.2 anc, isTrue⟩

end ParentTree
end Artax.Util
