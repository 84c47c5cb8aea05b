import Mathlib.Data.Finset.Max

/-!
# Closures by a worklist

A worklist takes the least element of a stage, keeps it and stages what comes next, until nothing is
staged. With as many rounds as there are elements it keeps what can be reached from the stage.
-/

namespace Artax.Util.Closure

open Finset

variable {α : Type*} [LinearOrder α]

def takeLeast : Nat → Finset α → List α
  | 0, _ => []
  | n + 1, s => if h : s.Nonempty then s.min' h :: takeLeast n (s.erase (s.min' h)) else []

def ascending (s : Finset α) : List α := takeLeast s.card s

def walk (next : α → Finset α) : Nat → Finset α → Finset α → Finset α
  | 0, _, found => found
  | n + 1, stage, found =>
    if h : stage.Nonempty then
      let it := stage.min' h
      walk next n (stage.erase it ∪ (next it \ insert it found)) (insert it found)
    else found

variable {n : Nat} {s stage found members : Finset α} {x : α}

theorem mem_takeLeast (enough : s.card ≤ n) :
    x ∈ takeLeast n s ↔ x ∈ s := by
  induction n generalizing s with
  | zero =>
    have none : s = ∅ := card_eq_zero.1 (by omega)
    simp [takeLeast, none]
  | succ n ih =>
    rw [takeLeast]
    split
    · next some =>
      have least := s.min'_mem some
      have fewer : (s.erase (s.min' some)).card ≤ n := by
        rw [card_erase_of_mem least]
        omega
      rw [List.mem_cons, ih fewer, mem_erase]
      by_cases isLeast : x = s.min' some
      · simp [isLeast, least]
      · simp [isLeast]
    · next none => simp [not_nonempty_iff_eq_empty.1 none]

theorem nodup_takeLeast (n : Nat) (s : Finset α) : (takeLeast n s).Nodup := by
  have only {n : Nat} {s : Finset α} {x : α} (listed : x ∈ takeLeast n s) : x ∈ s := by
    induction n generalizing s with
    | zero => cases listed
    | succ n ih =>
      rw [takeLeast] at listed
      split at listed
      · obtain rfl | later := List.mem_cons.1 listed
        · exact s.min'_mem _
        · exact mem_of_mem_erase (ih later)
      · cases listed
  induction n generalizing s with
  | zero => exact List.nodup_nil
  | succ n ih =>
    rw [takeLeast]
    split
    · exact List.nodup_cons.2 ⟨fun again => notMem_erase _ s (only again), ih _⟩
    · exact List.nodup_nil

@[simp]
theorem mem_ascending : x ∈ ascending s ↔ x ∈ s := mem_takeLeast le_rfl

theorem nodup_ascending (s : Finset α) : (ascending s).Nodup := nodup_takeLeast _ s

theorem toFinset_ascending (s : Finset α) : (ascending s).toFinset = s := by
  ext x
  simp

variable {next : α → Finset α}

theorem subset_walk (n : Nat) (stage found : Finset α) : found ⊆ walk next n stage found := by
  induction n generalizing stage found with
  | zero => exact Finset.Subset.refl found
  | succ n ih =>
    rw [walk]
    split
    · exact (subset_insert _ found).trans (ih _ _)
    · exact Finset.Subset.refl found

theorem reached_of_mem_walk (kept : x ∈ walk next n stage found) :
    x ∈ found ∨ ∃ s ∈ stage, Relation.ReflTransGen (fun a b => b ∈ next a) s x := by
  induction n generalizing stage found with
  | zero => exact .inl kept
  | succ n ih =>
    rw [walk] at kept
    split at kept
    · next some =>
      have least := stage.min'_mem some
      obtain new | ⟨s, staged, reached⟩ := ih kept
      · obtain rfl | old := mem_insert.1 new
        · exact .inr ⟨_, least, .refl⟩
        · exact .inl old
      · obtain before | after := mem_union.1 staged
        · exact .inr ⟨s, mem_of_mem_erase before, reached⟩
        · exact .inr ⟨_, least, .head (mem_sdiff.1 after).1 reached⟩
    · exact .inl kept

/-- A state of the worklist within a set: what comes after an element that was found was found
or is staged, and nothing is both. -/
structure Working (next : α → Finset α) (members stage found : Finset α) : Prop where
  stage_subset : stage ⊆ members
  apart : Disjoint stage found
  after : ∀ x ∈ found, next x ⊆ found ∪ stage

theorem Working.step {members stage found : Finset α} (working : Working next members stage found)
    (stays : ∀ x ∈ members, next x ⊆ members) {it : α} (staged : it ∈ stage) :
    Working next members (stage.erase it ∪ (next it \ insert it found)) (insert it found) where
  stage_subset := union_subset ((stage.erase_subset it).trans working.stage_subset)
    (sdiff_subset.trans (stays it (working.stage_subset staged)))
  apart := by
    refine disjoint_union_left.2 ⟨?_, sdiff_disjoint⟩
    exact disjoint_insert_right.2 ⟨notMem_erase it stage,
      disjoint_of_subset_left (stage.erase_subset it) working.apart⟩
  after := by
    intro x found' y comes
    obtain rfl | old := mem_insert.1 found'
    · simp only [mem_union, mem_sdiff]
      tauto
    · have := working.after x old comes
      simp only [mem_union, mem_insert, mem_erase] at this ⊢
      tauto

theorem closed_walk (stays : ∀ x ∈ members, next x ⊆ members)
    (working : Working next members stage found) (enough : (members \ found).card ≤ n) :
    stage ⊆ walk next n stage found ∧
      ∀ x ∈ walk next n stage found, next x ⊆ walk next n stage found := by
  induction n generalizing stage found with
  | zero =>
    have all : members \ found = ∅ := card_eq_zero.1 (by omega)
    have none : stage = ∅ := by
      refine eq_empty_of_forall_notMem fun x staged => ?_
      have : x ∈ members \ found := mem_sdiff.2
        ⟨working.stage_subset staged, disjoint_left.1 working.apart staged⟩
      simp [all] at this
    subst none
    exact ⟨empty_subset _, fun x kept => by simpa [walk] using working.after x kept⟩
  | succ n ih =>
    rw [walk]
    split
    · next some =>
      have staged := stage.min'_mem some
      have isNew := disjoint_left.1 working.apart staged
      have fewer : (members \ insert (stage.min' some) found).card ≤ n := by
        have missing : stage.min' some ∈ members \ found :=
          mem_sdiff.2 ⟨working.stage_subset staged, isNew⟩
        rw [sdiff_insert, card_erase_of_mem missing]
        omega
      obtain ⟨keeps, closed⟩ := ih (working.step stays staged) fewer
      refine ⟨fun x before => ?_, closed⟩
      by_cases least : x = stage.min' some
      · subst least
        exact subset_walk n _ _ (mem_insert_self _ _)
      · exact keeps (mem_union_left _ (mem_erase.2 ⟨least, before⟩))
    · next none =>
      rw [not_nonempty_iff_eq_empty] at none
      subst none
      exact ⟨empty_subset _, fun x kept => by simpa using working.after x kept⟩

theorem mem_walk (stays : ∀ x ∈ members, next x ⊆ members) (within : stage ⊆ members)
    (enough : members.card ≤ n) :
    x ∈ walk next n stage ∅ ↔
      ∃ s ∈ stage, Relation.ReflTransGen (fun a b => b ∈ next a) s x := by
  have start : Working next members stage ∅ := ⟨within, disjoint_empty_right _, by simp⟩
  obtain ⟨keeps, closed⟩ := closed_walk stays start (n := n) (by simpa using enough)
  constructor
  · intro kept
    exact (reached_of_mem_walk kept).resolve_left (notMem_empty x)
  · rintro ⟨s, staged, reached⟩
    induction reached with
    | refl => exact keeps staged
    | tail _ comes ih => exact closed _ ih comes

end Artax.Util.Closure

namespace Artax.Util

variable {α : Type*}

/-- Each element of a list suits the elements before it. -/
def Stepwise (suits : List α → α → Prop) (l : List α) : Prop :=
  ∀ before x after, l = before ++ x :: after → suits before x

variable {suits : List α → α → Prop} {l : List α}

theorem stepwise_nil : Stepwise suits [] := by
  intro before x after eq
  simp at eq

theorem Stepwise.concat (stepwise : Stepwise suits l) {x : α} (last : suits l x) :
    Stepwise suits (l ++ [x]) := by
  intro before y after eq
  obtain rfl | ⟨rest, z, rfl⟩ := List.eq_nil_or_concat after
  · obtain ⟨rfl, same⟩ := List.append_inj' eq rfl
    cases same
    exact last
  · rw [List.concat_eq_append, ← List.cons_append, ← List.append_assoc] at eq
    exact stepwise before y rest (List.append_inj' eq rfl).1

theorem Stepwise.of_mem (stepwise : Stepwise suits l) {x : α} (member : x ∈ l) :
    ∃ before after, l = before ++ x :: after ∧ suits before x := by
  obtain ⟨before, after, rfl⟩ := List.append_of_mem member
  exact ⟨before, after, rfl, stepwise before x after rfl⟩

theorem Stepwise.nodup_map {β : Type*} {key : α → β} (stepwise : Stepwise suits l)
    (fresh : ∀ before x, suits before x → key x ∉ before.map key) : (l.map key).Nodup := by
  induction l using List.reverseRecOn with
  | nil => exact List.nodup_nil
  | append_singleton l x ih =>
    rw [List.map_append, List.map_singleton, List.nodup_append_comm, List.singleton_append,
      List.nodup_cons]
    refine ⟨fresh l x (stepwise l x [] rfl), ih fun before y after eq => ?_⟩
    exact stepwise before y (after ++ [x]) (by rw [eq, List.append_assoc, List.cons_append])

end Artax.Util
