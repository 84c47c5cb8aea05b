import Mathlib.Algebra.BigOperators.Group.Finset.Piecewise

/-!
# Ordered maps

A finite map kept as an association list in strictly increasing key order, the iteration order of a
balanced-tree map. The order is a field of the structure.
-/

namespace Artax.Util

open List

/-- A finite map whose entries are listed by strictly increasing key. -/
structure OrderedMap (κ ν : Type) [LinearOrder κ] where
  entries : List (κ × ν)
  sorted : entries.Pairwise (fun left right => left.1 < right.1)

namespace OrderedMap

variable {κ ν : Type} [LinearOrder κ]

def empty : OrderedMap κ ν := ⟨[], List.Pairwise.nil⟩

def findEntries (key : κ) : List (κ × ν) → Option ν
  | [] => none
  | (k, v) :: rest => if key = k then some v else findEntries key rest

def insertEntries (key : κ) (value : ν) : List (κ × ν) → List (κ × ν)
  | [] => [(key, value)]
  | (k, v) :: rest =>
    if key < k then (key, value) :: (k, v) :: rest
    else if key = k then (key, value) :: rest
    else (k, v) :: insertEntries key value rest

variable {key : κ} {entries : List (κ × ν)} {map : OrderedMap κ ν}

theorem mem_insertEntries {value : ν} {entry : κ × ν}
    (member : entry ∈ insertEntries key value entries) :
    entry = (key, value) ∨ entry ∈ entries := by
  induction entries with
  | nil => simpa [insertEntries] using member
  | cons head rest ih =>
    obtain ⟨k, v⟩ := head
    simp only [insertEntries] at member
    split at member
    · simpa using member
    · split at member
      · rcases mem_cons.1 member with rfl | old
        · exact Or.inl rfl
        · exact Or.inr (mem_cons_of_mem _ old)
      · rcases mem_cons.1 member with rfl | later
        · exact Or.inr mem_cons_self
        · exact (ih later).imp id (mem_cons_of_mem _)

theorem insertEntries_sorted (key : κ) (value : ν) (entries : List (κ × ν))
    (sorted : entries.Pairwise (fun left right => left.1 < right.1)) :
    (insertEntries key value entries).Pairwise (fun left right => left.1 < right.1) := by
  induction entries with
  | nil => simp [insertEntries]
  | cons head rest ih =>
    obtain ⟨k, v⟩ := head
    obtain ⟨above, restSorted⟩ := pairwise_cons.1 sorted
    simp only [insertEntries]
    split
    · rename_i below
      refine pairwise_cons.2 ⟨?_, sorted⟩
      intro entry member
      rcases mem_cons.1 member with rfl | later
      · exact below
      · exact lt_trans below (above entry later)
    · rename_i notBelow
      split
      · rename_i same
        subst same
        exact pairwise_cons.2 ⟨above, restSorted⟩
      · rename_i different
        refine pairwise_cons.2 ⟨?_, ih restSorted⟩
        intro entry member
        rcases mem_insertEntries member with rfl | old
        · exact lt_of_le_of_ne (not_lt.1 notBelow) (Ne.symm different)
        · exact above entry old

theorem findEntries_insertEntries (key other : κ) (value : ν) (entries : List (κ × ν)) :
    findEntries other (insertEntries key value entries) =
      if other = key then some value else findEntries other entries := by
  induction entries with
  | nil => simp [insertEntries, findEntries]
  | cons head rest ih =>
    obtain ⟨k, v⟩ := head
    simp only [insertEntries]
    split
    · simp [findEntries]
    · split
      · rename_i same
        subst same
        simp only [findEntries]
        split <;> rfl
      · rename_i different
        simp only [findEntries, ih]
        by_cases atHead : other = k
        · have : other ≠ key := fun same => different (same ▸ atHead)
          simp [atHead, Ne.symm different]
        · simp [atHead]

def find? (map : OrderedMap κ ν) (key : κ) : Option ν := findEntries key map.entries

def contains (map : OrderedMap κ ν) (key : κ) : Bool := (map.find? key).isSome

def insert (map : OrderedMap κ ν) (key : κ) (value : ν) : OrderedMap κ ν :=
  ⟨insertEntries key value map.entries, insertEntries_sorted key value map.entries map.sorted⟩

def keys (map : OrderedMap κ ν) : List κ := map.entries.map Prod.fst

@[simp] theorem find?_empty (key : κ) : (empty : OrderedMap κ ν).find? key = none := rfl

@[simp] theorem find?_insert (map : OrderedMap κ ν) (key other : κ) (value : ν) :
    (map.insert key value).find? other = if other = key then some value else map.find? other :=
  findEntries_insertEntries key other value map.entries

theorem keys_nodup (map : OrderedMap κ ν) : map.keys.Nodup := by
  refine List.Pairwise.map Prod.fst ?_ map.sorted
  intro left right ordered
  exact ne_of_lt ordered

theorem findEntries_eq_some_iff (nodup : (entries.map Prod.fst).Nodup) (key : κ) (value : ν) :
    findEntries key entries = some value ↔ (key, value) ∈ entries := by
  induction entries with
  | nil => simp [findEntries]
  | cons head rest ih =>
    obtain ⟨k, v⟩ := head
    simp only [map_cons, nodup_cons] at nodup
    obtain ⟨fresh, restNodup⟩ := nodup
    simp only [findEntries]
    by_cases same : key = k
    · subst same
      have absent : (key, value) ∉ rest := fun member =>
        fresh (mem_map_of_mem (f := Prod.fst) member)
      simp [absent, eq_comm]
    · simp [same, ih restNodup]

theorem mem_entries_iff (map : OrderedMap κ ν) (key : κ) (value : ν) :
    (key, value) ∈ map.entries ↔ map.find? key = some value :=
  (findEntries_eq_some_iff map.keys_nodup key value).symm

theorem mem_keys_iff (map : OrderedMap κ ν) (key : κ) :
    key ∈ map.keys ↔ (map.find? key).isSome := by
  constructor
  · intro member
    obtain ⟨⟨k, v⟩, stored, rfl⟩ := mem_map.1 member
    rw [(map.mem_entries_iff k v).1 stored]
    rfl
  · intro found
    obtain ⟨v, hv⟩ := Option.isSome_iff_exists.1 found
    exact mem_map.2 ⟨(key, v), (map.mem_entries_iff key v).2 hv, rfl⟩

theorem mem_takeWhile_iff (map : OrderedMap κ ν) (test : κ × ν → Bool) (entry : κ × ν) :
    entry ∈ map.entries.takeWhile test ↔
      entry ∈ map.entries ∧ ∀ other ∈ map.entries, other.1 ≤ entry.1 → test other := by
  obtain ⟨entries, sorted⟩ := map
  induction entries with
  | nil => simp
  | cons first rest ih =>
    obtain ⟨above, restSorted⟩ := pairwise_cons.1 sorted
    cases passes : test first with
    | false =>
      simp only [takeWhile_cons, passes, Bool.false_eq_true, if_false, not_mem_nil,
        false_iff, not_and, not_forall]
      intro member
      refine ⟨first, mem_cons_self, ?_, by simp [passes]⟩
      rcases mem_cons.1 member with rfl | later
      · exact le_refl _
      · exact le_of_lt (above entry later)
    | true =>
      simp only [takeWhile_cons, passes, if_true, mem_cons, ih restSorted]
      constructor
      · rintro (rfl | ⟨later, tests⟩)
        · refine ⟨Or.inl rfl, ?_⟩
          rintro other (rfl | member) below
          · exact passes
          · exact absurd (above other member) (not_lt.2 below)
        · refine ⟨Or.inr later, ?_⟩
          rintro other (rfl | member) below
          · exact passes
          · exact tests other member below
      · rintro ⟨rfl | later, tests⟩
        · exact Or.inl rfl
        · exact Or.inr ⟨later, fun other member below => tests other (Or.inr member) below⟩

def iterate (map : OrderedMap κ ν) (key : κ) : List (κ × ν) :=
  map.entries.dropWhile fun entry => decide (entry.1 < key)

theorem mem_iterate_iff (map : OrderedMap κ ν) (key : κ) (entry : κ × ν) :
    entry ∈ map.iterate key ↔ entry ∈ map.entries ∧ key ≤ entry.1 := by
  obtain ⟨entries, sorted⟩ := map
  change entry ∈ entries.dropWhile _ ↔ entry ∈ entries ∧ key ≤ entry.1
  induction entries with
  | nil => simp
  | cons first rest ih =>
    obtain ⟨above, restSorted⟩ := pairwise_cons.1 sorted
    by_cases below : first.1 < key
    · rw [dropWhile_cons_of_pos (by simpa using below), ih restSorted, mem_cons]
      constructor
      · exact fun found => ⟨.inr found.1, found.2⟩
      · rintro ⟨rfl | later, reached⟩
        · exact absurd below (not_lt.2 reached)
        · exact ⟨later, reached⟩
    · rw [dropWhile_cons_of_neg (by simpa using below)]
      refine ⟨fun member => ⟨member, ?_⟩, fun found => found.1⟩
      rcases mem_cons.1 member with rfl | later
      · exact not_lt.1 below
      · exact le_trans (not_lt.1 below) (le_of_lt (above entry later))

theorem le_of_mem_iterate {first entry : κ × ν} (starts : (map.iterate key).head? = some first)
    (member : entry ∈ map.iterate key) :
    first.1 ≤ entry.1 := by
  have sorted : (map.iterate key).Pairwise (fun left right => left.1 < right.1) :=
    map.sorted.sublist (dropWhile_sublist _)
  cases split : map.iterate key with
  | nil =>
    rw [split] at member
    cases member
  | cons head rest =>
    rw [split] at starts member sorted
    obtain rfl : head = first := by simpa using starts
    rcases mem_cons.1 member with rfl | later
    · exact le_refl _
    · exact le_of_lt ((pairwise_cons.1 sorted).1 entry later)

/-- Among the entries an iterator goes over, those taken while a test holds are those where it holds
from the key sought on. -/
theorem mem_takeWhile_iterate_iff (map : OrderedMap κ ν) (key : κ) (test : κ × ν → Bool)
    (entry : κ × ν) :
    entry ∈ (map.iterate key).takeWhile test ↔
      entry ∈ map.entries ∧ key ≤ entry.1 ∧
        ∀ other ∈ map.entries, key ≤ other.1 → other.1 ≤ entry.1 → test other := by
  have taken := mem_takeWhile_iff ⟨map.iterate key, map.sorted.sublist (dropWhile_sublist _)⟩
    test entry
  simp only [mem_iterate_iff] at taken
  rw [taken]
  constructor
  · rintro ⟨⟨member, reached⟩, passes⟩
    exact ⟨member, reached, fun other listed above => passes other ⟨listed, above⟩⟩
  · rintro ⟨member, reached, passes⟩
    exact ⟨⟨member, reached⟩, fun other listed => passes other listed.1 listed.2⟩

def erase (map : OrderedMap κ ν) (key : κ) : OrderedMap κ ν :=
  ⟨map.entries.filter fun entry => decide (entry.1 ≠ key), map.sorted.filter _⟩

@[simp] theorem find?_erase (map : OrderedMap κ ν) (key other : κ) :
    (map.erase key).find? other = if other = key then none else map.find? other := by
  ext value
  rw [← mem_entries_iff, erase, List.mem_filter, mem_entries_iff]
  by_cases same : other = key <;> simp [same]

theorem find?_foldl_erase (keys : List κ) (map : OrderedMap κ ν) (key : κ) :
    (keys.foldl erase map).find? key = if key ∈ keys then none else map.find? key := by
  induction keys generalizing map with
  | nil => simp
  | cons first rest ih =>
    rw [foldl_cons, ih, find?_erase]
    by_cases same : key = first <;> simp [same]

def filter (map : OrderedMap κ ν) (test : κ → ν → Bool) : OrderedMap κ ν :=
  ⟨map.entries.filter fun entry => test entry.1 entry.2, map.sorted.filter _⟩

theorem find?_filter_eq_some {test : κ → ν → Bool} {value : ν} :
    (map.filter test).find? key = some value ↔ map.find? key = some value ∧ test key value := by
  rw [← mem_entries_iff, filter, mem_filter, mem_entries_iff]

theorem find?_foldl_insert_of_not_mem {α : Type} (key : α → κ) (value : α → ν) (items : List α)
    (map : OrderedMap κ ν) (k : κ) (outside : k ∉ items.map key) :
    (items.foldl (fun m item => m.insert (key item) (value item)) map).find? k = map.find? k := by
  induction items generalizing map with
  | nil => rfl
  | cons item rest ih =>
    simp only [map_cons, mem_cons, not_or] at outside
    rw [foldl_cons, ih _ outside.2, find?_insert, if_neg outside.1]

theorem find?_foldl_insert_of_mem {α : Type} (key : α → κ) (value : α → ν) (items : List α)
    (nodup : (items.map key).Nodup) (map : OrderedMap κ ν) {item : α} (member : item ∈ items) :
    (items.foldl (fun m item => m.insert (key item) (value item)) map).find? (key item) =
      some (value item) := by
  induction items generalizing map with
  | nil => cases member
  | cons first rest ih =>
    simp only [map_cons, nodup_cons] at nodup
    rw [foldl_cons]
    rcases mem_cons.1 member with rfl | later
    · rw [find?_foldl_insert_of_not_mem key value rest _ _ nodup.1, find?_insert, if_pos rfl]
    · exact ih nodup.2 _ later

def sumBy {β : Type} [AddCommMonoid β] (map : OrderedMap κ ν) (f : κ → ν → β) : β :=
  (map.entries.map fun entry => f entry.1 entry.2).sum

section

variable {β : Type} [AddCommMonoid β]

theorem sum_findEntries (f : κ → ν → β) (entries : List (κ × ν))
    (nodup : (entries.map Prod.fst).Nodup) (S : Finset κ) (cover : ∀ entry ∈ entries, entry.1 ∈ S) :
    (entries.map fun entry => f entry.1 entry.2).sum =
      ∑ k ∈ S, (findEntries k entries).elim 0 (f k) := by
  induction entries with
  | nil => simp [findEntries]
  | cons head rest ih =>
    obtain ⟨key, value⟩ := head
    simp only [map_cons, nodup_cons] at nodup
    obtain ⟨fresh, restNodup⟩ := nodup
    have absent : findEntries key rest = none := by
      cases found : findEntries key rest with
      | none => rfl
      | some v =>
        exact absurd (mem_map_of_mem ((findEntries_eq_some_iff restNodup key v).1 found)) fresh
    have split (k : κ) : (findEntries k ((key, value) :: rest)).elim 0 (f k) =
        (if key = k then f key value else 0) + (findEntries k rest).elim 0 (f k) := by
      by_cases same : k = key
      · subst same
        simp [findEntries, absent]
      · simp [findEntries, same, Ne.symm same]
    have restCover : ∀ entry ∈ rest, entry.1 ∈ S := fun entry member =>
      cover entry (mem_cons_of_mem _ member)
    have inside : key ∈ S := cover (key, value) mem_cons_self
    simp only [map_cons, sum_cons, split, Finset.sum_add_distrib,
      Finset.sum_ite_eq, inside, if_true, ih restNodup restCover]

theorem sumBy_eq_sum (map : OrderedMap κ ν) (f : κ → ν → β) (S : Finset κ)
    (cover : ∀ k, (map.find? k).isSome → k ∈ S) :
    map.sumBy f = ∑ k ∈ S, (map.find? k).elim 0 (f k) := by
  refine sum_findEntries f map.entries map.keys_nodup S ?_
  intro entry member
  exact cover entry.1 ((map.mem_keys_iff entry.1).1 (mem_map_of_mem member))

theorem sumBy_add_of_agree (left right : OrderedMap κ ν) (f : κ → ν → β)
    (agree : ∀ k, k ≠ key → left.find? k = right.find? k) :
    left.sumBy f + (right.find? key).elim 0 (f key) =
      right.sumBy f + (left.find? key).elim 0 (f key) := by
  let S : Finset κ := {key} ∪ (left.keys ++ right.keys).toFinset
  have cover : ∀ k, (left.find? k).isSome ∨ (right.find? k).isSome → k ∈ S := by
    intro k found
    rw [Finset.mem_union, mem_toFinset, mem_append, mem_keys_iff, mem_keys_iff]
    exact .inr found
  have inside : key ∈ S := Finset.mem_union_left _ (Finset.mem_singleton_self key)
  have rest : ∀ k ∈ S.erase key,
      (left.find? k).elim 0 (f k) = (right.find? k).elim 0 (f k) := by
    intro k member
    rw [agree k (Finset.mem_erase.1 member).1]
  rw [sumBy_eq_sum left f S fun k found => cover k (.inl found),
    sumBy_eq_sum right f S fun k found => cover k (.inr found),
    ← Finset.add_sum_erase _ _ inside, ← Finset.add_sum_erase S _ inside,
    Finset.sum_congr rfl rest]
  ac_rfl

end

def count (map : OrderedMap κ ν) (test : ν → Bool) : Nat :=
  map.sumBy fun _ value => if test value then 1 else 0

theorem count_insert (map : OrderedMap κ ν) (key : κ) (value : ν) (test : ν → Bool) :
    (map.insert key value).count test + (if (map.find? key).any test then 1 else 0) =
      map.count test + if test value then 1 else 0 := by
  have sums := sumBy_add_of_agree (map.insert key value) map
    (fun _ value => if test value then 1 else 0) fun k (other : k ≠ key) => by simp [other]
  cases found : map.find? key <;> simpa [count, found] using sums

theorem count_erase (map : OrderedMap κ ν) (key : κ) (test : ν → Bool) :
    (map.erase key).count test + (if (map.find? key).any test then 1 else 0) = map.count test := by
  have sums := sumBy_add_of_agree (map.erase key) map
    (fun _ value => if test value then 1 else 0) fun k (other : k ≠ key) => by simp [other]
  cases found : map.find? key <;> simpa [count, found] using sums

end OrderedMap
end Artax.Util
