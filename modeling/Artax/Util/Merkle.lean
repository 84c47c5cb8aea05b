import Mathlib.Data.List.Basic

/-!
# Merkle roots

The root of a list of leaves under any pair function, a last element without a neighbour being joined
with itself. When joining is injective and no leaf is a join, a list without the mutation flag begins
every list with its root.
-/

namespace Artax.Util.Merkle

open List

variable {α : Type}

section

variable (pair : α → α → α)

def level : List α → List α
  | a :: b :: rest => pair a b :: level rest
  | [a] => [pair a a]
  | [] => []

def hasTwins [DecidableEq α] : List α → Bool
  | a :: b :: rest => decide (a = b) || hasTwins rest
  | _ => false

/-- Climb to the root, with the mutation flag so far. A list of several elements gets shorter with
every level, so its length is enough fuel. -/
def climb [DecidableEq α] (empty : α) : Nat → List α → Bool → α × Bool
  | fuel + 1, a :: b :: rest, mutation =>
    climb empty fuel (level pair (a :: b :: rest)) (mutation || hasTwins (a :: b :: rest))
  | _, hashes, mutation => (hashes.headD empty, mutation)

def computeMerkleRoot [DecidableEq α] (empty : α) (hashes : List α) : α × Bool :=
  climb pair empty hashes.length hashes false

/-- How often an element was joined: leaves not at all. -/
def Height : Nat → α → Prop
  | 0, x => ∀ a b, x ≠ pair a b
  | n + 1, x => ∃ a b, x = pair a b ∧ Height n a ∧ Height n b

end

/-- Joining two elements determines both. -/
def Joins (pair : α → α → α) : Prop := ∀ a b c d, pair a b = pair c d → a = c ∧ b = d

variable {pair : α → α → α}

/-! ## Levels -/

theorem level_length_lt (pair : α → α → α) (a b : α) (rest : List α) :
    (level pair (a :: b :: rest)).length < (a :: b :: rest).length := by
  have half (hashes : List α) : (level pair hashes).length ≤ hashes.length := by
    fun_induction level pair hashes with
    | case1 a b rest ih =>
      simp only [length_cons]
      omega
    | case2 => exact Nat.le_refl _
    | case3 => exact Nat.le_refl _
  have tail := half rest
  simp only [level, length_cons]
  omega

variable {hashes left right : List α}

theorem level_ne_nil (some : hashes ≠ []) : level pair hashes ≠ [] := by
  fun_cases level pair hashes with
  | case1 => exact cons_ne_nil _ _
  | case2 => exact cons_ne_nil _ _
  | case3 => exact some

theorem mem_level {x : α} (member : x ∈ level pair hashes) :
    ∃ a ∈ hashes, ∃ b ∈ hashes, x = pair a b := by
  fun_induction level pair hashes with
  | case1 a b rest ih =>
    rcases mem_cons.1 member with rfl | later
    · exact ⟨a, by simp, b, by simp, rfl⟩
    · obtain ⟨c, first, d, second, same⟩ := ih later
      exact ⟨c, by simp [first], d, by simp [second], same⟩
  | case2 a => exact ⟨a, by simp, a, by simp, mem_singleton.1 member⟩
  | case3 => cases member

theorem exists_mem_level (pair : α → α → α) {a : α} (member : a ∈ hashes) :
    ∃ b, pair a b ∈ level pair hashes ∨ pair b a ∈ level pair hashes := by
  fun_induction level pair hashes with
  | case1 first second rest ih =>
    simp only [mem_cons] at member ⊢
    rcases member with rfl | rfl | later
    · exact ⟨second, .inl (.inl rfl)⟩
    · exact ⟨first, .inr (.inl rfl)⟩
    · obtain ⟨b, joined⟩ := ih later
      exact ⟨b, joined.imp .inr .inr⟩
  | case2 first =>
    rw [mem_singleton.1 member]
    exact ⟨first, .inl mem_cons_self⟩
  | case3 => cases member

/-- A level that is the beginning of another stems from a list that is the beginning of the other
list, unless it joins twins. -/
theorem prefix_of_level [DecidableEq α] (joins : Joins pair) (distinct : hasTwins left = false)
    (levels : level pair left <+: level pair right) :
    left <+: right := by
  fun_induction level pair left generalizing right with
  | case1 a b rest ih =>
    simp only [hasTwins, Bool.or_eq_false_iff, decide_eq_false_iff_not] at distinct
    match right with
    | [] => cases prefix_nil.1 levels
    | [c] =>
      obtain ⟨head, _⟩ := cons_prefix_cons.1 levels
      obtain ⟨rfl, rfl⟩ := joins _ _ _ _ head
      exact absurd rfl distinct.1
    | c :: d :: more =>
      obtain ⟨head, tail⟩ := cons_prefix_cons.1 levels
      obtain ⟨rfl, rfl⟩ := joins _ _ _ _ head
      exact cons_prefix_cons.2 ⟨rfl, cons_prefix_cons.2 ⟨rfl, ih distinct.2 tail⟩⟩
  | case2 a =>
    match right with
    | [] => cases prefix_nil.1 levels
    | [c] =>
      obtain ⟨rfl, _⟩ := joins _ _ _ _ (cons_prefix_cons.1 levels).1
      exact prefix_rfl
    | c :: d :: more =>
      obtain ⟨rfl, _⟩ := joins _ _ _ _ (cons_prefix_cons.1 levels).1
      exact cons_prefix_cons.2 ⟨rfl, nil_prefix⟩
  | case3 => exact nil_prefix

theorem subset_of_level (joins : Joins pair) (levels : level pair right ⊆ level pair left) :
    right ⊆ left := by
  intro a member
  obtain ⟨b, joined | joined⟩ := exists_mem_level pair member
  · obtain ⟨c, first, d, _, same⟩ := mem_level (levels joined)
    exact (joins _ _ _ _ same).1 ▸ first
  · obtain ⟨c, _, d, second, same⟩ := mem_level (levels joined)
    exact (joins _ _ _ _ same).2 ▸ second

theorem length_level (pair : α → α → α) (hashes : List α) :
    (level pair hashes).length = (hashes.length + 1) / 2 := by
  fun_induction level pair hashes with
  | case1 a b rest ih =>
    simp only [length_cons, ih]
    omega
  | case2 => simp
  | case3 => simp

theorem eq_of_level (joins : Joins pair) (length : left.length = right.length)
    (levels : level pair left = level pair right) : left = right := by
  fun_induction level pair left generalizing right with
  | case1 a b rest ih =>
    match right with
    | c :: d :: more =>
      obtain ⟨head, tail⟩ := cons.inj levels
      obtain ⟨rfl, rfl⟩ := joins _ _ _ _ head
      rw [ih (by simpa using length) tail]
  | case2 a =>
    match right with
    | [c] =>
      obtain ⟨rfl, _⟩ := joins _ _ _ _ (cons.inj levels).1
      rfl
  | case3 => exact (length_eq_zero_iff.1 length.symm).symm

/-! ## Heights -/

theorem Height.unique (joins : Joins pair) {n m : Nat} {x : α} (first : Height pair n x)
    (second : Height pair m x) : n = m := by
  induction n generalizing m x with
  | zero =>
    cases m with
    | zero => rfl
    | succ m =>
      obtain ⟨a, b, same, _⟩ := second
      exact absurd same (first a b)
  | succ n ih =>
    obtain ⟨a, b, rfl, left, _⟩ := first
    cases m with
    | zero => exact absurd rfl (second a b)
    | succ m =>
      obtain ⟨c, d, same, left', _⟩ := second
      obtain ⟨rfl, rfl⟩ := joins _ _ _ _ same
      rw [ih left left']

theorem height_level {n : Nat} (heights : ∀ x ∈ hashes, Height pair n x) :
    ∀ x ∈ level pair hashes, Height pair (n + 1) x := by
  intro x member
  obtain ⟨a, first, b, second, rfl⟩ := mem_level member
  exact ⟨a, b, rfl, heights a first, heights b second⟩

section Roots

variable [DecidableEq α] {empty : α}

variable {n fuel : Nat} {left right : List α}

theorem height_climb (empty : α) (fuel : Nat) {hashes : List α} (mutation : Bool)
    (some : hashes ≠ []) (heights : ∀ x ∈ hashes, Height pair n x) :
    ∃ k, Height pair (n + k) (climb pair empty fuel hashes mutation).1 := by
  fun_induction climb pair empty fuel hashes mutation generalizing n with
  | case1 fuel a b rest mutation ih =>
    obtain ⟨k, height⟩ := ih (level_ne_nil some) (height_level heights)
    exact ⟨k + 1, by rwa [Nat.add_comm k, ← Nat.add_assoc]⟩
  | case2 fuel hashes =>
    refine ⟨0, heights _ ?_⟩
    match hashes, some with
    | a :: rest, _ => exact mem_cons_self

theorem climb_mutated (fuel : Nat) (hashes : List α) :
    (climb pair empty fuel hashes true).2 := by
  induction fuel generalizing hashes with
  | zero => rfl
  | succ fuel ih =>
    match hashes with
    | [] => rfl
    | [a] => rfl
    | a :: b :: rest => exact ih _

section

variable (joins : Joins pair)
include joins

theorem climb_prefix {fuel' : Nat} {mutation : Bool} (enough : left.length ≤ fuel)
    (enough' : right.length ≤ fuel') (someLeft : left ≠ []) (someRight : right ≠ [])
    (heights : ∀ x ∈ left, Height pair n x) (heights' : ∀ x ∈ right, Height pair n x)
    (unmutated : (climb pair empty fuel left false).2 = false)
    (same : (climb pair empty fuel left false).1 = (climb pair empty fuel' right mutation).1) :
    left <+: right ∧ right ⊆ left := by
  induction fuel generalizing n fuel' left right mutation with
  | zero => exact absurd (length_eq_zero_iff.1 (Nat.le_zero.1 enough)) someLeft
  | succ fuel ih =>
    cases fuel' with
    | zero => exact absurd (length_eq_zero_iff.1 (Nat.le_zero.1 enough')) someRight
    | succ fuel' =>
      match left, right, someLeft, someRight with
      | [a], [b], _, _ =>
        have equal : a = b := same
        rw [equal]
        exact ⟨prefix_rfl, List.Subset.refl _⟩
      -- lists of different depth have roots of different height
      | [a], b :: c :: rest, _, some' =>
        obtain ⟨k, height⟩ := height_climb empty fuel' (mutation || hasTwins (b :: c :: rest))
          (level_ne_nil some') (height_level heights')
        have deep := Height.unique joins (heights a mem_cons_self) (same ▸ height)
        omega
      | a :: b :: rest, [c], some', _ =>
        obtain ⟨k, height⟩ := height_climb empty fuel (hasTwins (a :: b :: rest))
          (level_ne_nil some') (height_level heights)
        have deep := Height.unique joins (heights' c mem_cons_self) (same ▸ height)
        omega
      | a :: b :: rest, c :: d :: more, some₁, some₂ =>
        have distinct : hasTwins (a :: b :: rest) = false := by
          cases twins : hasTwins (a :: b :: rest) with
          | false => rfl
          | true =>
            simp only [climb, twins, Bool.or_true, climb_mutated] at unmutated
            cases unmutated
        simp only [climb, distinct, Bool.or_false] at unmutated same
        have shorter := level_length_lt pair a b rest
        have shorter' := level_length_lt pair c d more
        obtain ⟨begins, repeats⟩ := ih (by omega) (by omega) (level_ne_nil some₁)
          (level_ne_nil some₂) (height_level heights) (height_level heights') unmutated same
        exact ⟨prefix_of_level joins distinct begins, subset_of_level joins repeats⟩

/-- Among lists of leaves, an unmutated list begins every list that has its root, and holds all
elements of it. -/
theorem prefix_of_root_eq (someLeft : left ≠ []) (someRight : right ≠ [])
    (leaves : ∀ x ∈ left, ∀ a b, x ≠ pair a b) (leaves' : ∀ x ∈ right, ∀ a b, x ≠ pair a b)
    (unmutated : (computeMerkleRoot pair empty left).2 = false)
    (same : (computeMerkleRoot pair empty left).1 = (computeMerkleRoot pair empty right).1) :
    left <+: right ∧ right ⊆ left :=
  climb_prefix (n := 0) joins (Nat.le_refl _) (Nat.le_refl _) someLeft someRight leaves leaves'
    unmutated same

theorem climb_injective {mutation mutation' : Bool} (enough : left.length ≤ fuel)
    (length : left.length = right.length)
    (same : (climb pair empty fuel left mutation).1 = (climb pair empty fuel right mutation').1) :
    left = right := by
  induction fuel generalizing left right mutation mutation' with
  | zero =>
    have none : left.length = 0 := Nat.le_zero.1 enough
    rw [length_eq_zero_iff.1 none, length_eq_zero_iff.1 (length.symm.trans none)]
  | succ fuel ih =>
    match left, right with
    | [], [] => rfl
    | [a], [b] => exact congrArg (fun x => [x]) same
    | a :: b :: rest, c :: d :: more =>
      have shorter := level_length_lt pair a b rest
      have lengths : (level pair (a :: b :: rest)).length = (level pair (c :: d :: more)).length := by
        rw [length_level, length_level, length]
      exact eq_of_level joins length (ih (by omega) lengths same)

theorem eq_of_root_eq (length : left.length = right.length)
    (same : (computeMerkleRoot pair empty left).1 = (computeMerkleRoot pair empty right).1) :
    left = right := by
  unfold computeMerkleRoot at same
  rw [← length] at same
  exact climb_injective joins (Nat.le_refl _) length same

end

end Roots

end Artax.Util.Merkle
