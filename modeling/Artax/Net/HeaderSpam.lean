import Artax.Util.OrderedMap
import Mathlib.Tactic.Linarith

/-!
# The header-spam filter

`CNodeHeaders` counts how often a peer sent headers of each height, in a table of at most `maxSize`
heights, and bans it when the counts grow too large. A full table drops its least height before the
next one is looked up, so a peer that repeats that height is never banned.
-/

namespace Artax

open List
open Util (OrderedMap)

/-- `CNodeHeaders`, with the heights of the arrived headers and how often each was counted. -/
structure CNodeHeaders where
  points : OrderedMap Int Nat := .empty
  maxSize : UInt64
  maxAvg : UInt64

/-- The heights of the first and the last header of a message, where they were accepted. -/
structure HeaderRange where
  pindexFirst : Option Int
  pindexLast : Option Int
  deriving DecidableEq, Repr

def HeaderRange.heights : HeaderRange → List Int
  | ⟨some nBegin, some nEnd⟩ => (List.range (nEnd + 1 - nBegin).toNat).map fun i => nBegin + (i : Int)
  | _ => []

def HeaderRange.single (height : Int) : HeaderRange := ⟨some height, some height⟩

theorem HeaderRange.heights_single (height : Int) : (single height).heights = [height] := by
  simp [single, heights]

namespace CNodeHeaders

variable (h : CNodeHeaders)

def size : Nat := h.points.entries.length

def nHeaders : Nat := h.points.sumBy fun _ occurrence => occurrence

def eraseFirst (points : OrderedMap Int Nat) : OrderedMap Int Nat :=
  ⟨points.entries.tail, points.sorted.tail⟩

/-- `CNodeHeaders::addPoint`. -/
def addPoint (height : Int) : CNodeHeaders :=
  let points := if h.size = h.maxSize.toNat then eraseFirst h.points else h.points
  { h with points := points.insert height ((points.find? height).getD 0 + 1) }

/-- `CNodeHeaders::addHeaders`. -/
def addHeaders (range : HeaderRange) : CNodeHeaders :=
  if h.maxSize ≠ 0 ∧ h.maxAvg ≠ 0 then range.heights.foldl addPoint h else h

/-- The three conditions of `banNode`; the product wraps as `size_t` does. -/
def BanNode : Prop :=
  let nAvgValue : ℚ := h.nHeaders / h.size
  (3 / 2 * (h.maxAvg.toNat : ℚ) ≤ nAvgValue ∧ h.maxAvg.toNat ≤ h.size) ∨
    ((h.maxAvg.toNat : ℚ) ≤ nAvgValue ∧ h.maxSize.toNat ≤ h.nHeaders) ∨
    (h.maxSize * 3).toNat ≤ h.nHeaders

instance : Decidable h.BanNode := by
  unfold BanNode
  infer_instance

/-- `CNodeHeaders::updateState`. -/
def updateState (ret : Bool) : CNodeHeaders × Option Bool :=
  if h.size = 0 then (h, some ret)
  else if h.BanNode then ({ h with points := .empty }, none)
  else (h, some ret)

def receive (message : HeaderRange × Bool) : CNodeHeaders × Option Bool :=
  (h.addHeaders message.1).updateState message.2

def banned : CNodeHeaders → List (HeaderRange × Bool) → Bool
  | _, [] => false
  | h, message :: rest =>
    match h.receive message with
    | (_, none) => true
    | (h, some _) => banned h rest

def delivered (messages : List (HeaderRange × Bool)) : List Int :=
  messages.flatMap fun message => message.1.heights

variable {h}

/-! ## The table -/

variable {height k least : Int} {S : Finset Int} {rest : List (Int × Nat)} {maxSize maxAvg : UInt64}

theorem mem_keys_addPoint (member : k ∈ (h.addPoint height).points.keys) :
    k = height ∨ k ∈ h.points.keys := by
  rw [OrderedMap.mem_keys_iff] at member
  simp only [addPoint, OrderedMap.find?_insert] at member
  split at member
  · rename_i same
    exact .inl same
  · refine .inr ?_
    rw [← OrderedMap.mem_keys_iff] at member
    split at member
    · exact (tail_sublist _).mem (by simpa [OrderedMap.keys, eraseFirst] using member)
    · exact member

theorem sumBy_insert_succ (points : OrderedMap Int Nat) (height : Int) :
    (points.insert height ((points.find? height).getD 0 + 1)).sumBy (fun _ n => n) =
      points.sumBy (fun _ n => n) + 1 := by
  have sums := OrderedMap.sumBy_add_of_agree
    (points.insert height ((points.find? height).getD 0 + 1)) points (fun _ n => n)
    fun k (other : k ≠ height) => by rw [OrderedMap.find?_insert, if_neg other]
  cases found : points.find? height <;> simp [found] at sums ⊢ <;> omega

theorem size_le_of_keys (inside : ∀ k ∈ h.points.keys, k ∈ S) : h.size ≤ S.card := by
  have distinct := h.points.keys_nodup
  have count : h.points.keys.toFinset.card = h.size := by
    rw [toFinset_card_of_nodup distinct, OrderedMap.keys, length_map, size]
  rw [← count]
  exact Finset.card_le_card fun k member => inside k (mem_toFinset.1 member)

/-! ## Few heights -/

theorem addPoints_few (few : S.card < h.maxSize.toNat) (heights : List Int)
    (inside : ∀ k ∈ h.points.keys, k ∈ S) (arrive : ∀ k ∈ heights, k ∈ S) :
    (∀ k ∈ (heights.foldl addPoint h).points.keys, k ∈ S) ∧
      (heights.foldl addPoint h).nHeaders = h.nHeaders + heights.length ∧
      (heights.foldl addPoint h).maxSize = h.maxSize := by
  induction heights generalizing h with
  | nil => exact ⟨inside, rfl, rfl⟩
  | cons height rest ih =>
    have room : h.size ≠ h.maxSize.toNat := by
      have small := size_le_of_keys inside
      omega
    have step : ∀ k ∈ (h.addPoint height).points.keys, k ∈ S := by
      intro k member
      rcases mem_keys_addPoint member with rfl | old
      · exact arrive k (mem_cons_self ..)
      · exact inside k old
    have count : (h.addPoint height).nHeaders = h.nHeaders + 1 := by
      simp only [addPoint, nHeaders, if_neg room]
      exact sumBy_insert_succ h.points height
    obtain ⟨keys, total, size⟩ := ih (h := h.addPoint height) few step
      fun k member => arrive k (mem_cons_of_mem _ member)
    refine ⟨keys, ?_, size⟩
    rw [foldl_cons, total, count, length_cons]
    omega

theorem maxAvg_addPoints (heights : List Int) :
    (heights.foldl addPoint h).maxSize = h.maxSize ∧ (heights.foldl addPoint h).maxAvg = h.maxAvg := by
  induction heights generalizing h with
  | nil => exact ⟨rfl, rfl⟩
  | cons height rest ih => exact ih (h := h.addPoint height)

theorem banned_of_few (few : S.card < h.maxSize.toNat) (active : h.maxAvg ≠ 0)
    (messages : List (HeaderRange × Bool)) (inside : ∀ k ∈ h.points.keys, k ∈ S)
    (arrive : ∀ k ∈ delivered messages, k ∈ S) (below : h.nHeaders < 3 * h.maxSize.toNat)
    (many : 3 * h.maxSize.toNat ≤ h.nHeaders + (delivered messages).length) :
    banned h messages := by
  induction messages generalizing h with
  | nil => exact absurd many (by simp only [delivered, flatMap_nil, length_nil]; omega)
  | cons message rest ih =>
    have filtering : h.maxSize ≠ 0 ∧ h.maxAvg ≠ 0 := by
      refine ⟨fun zero => ?_, active⟩
      rw [zero] at few
      exact absurd few (Nat.not_lt_zero _)
    have split : delivered (message :: rest) = message.1.heights ++ delivered rest := rfl
    rw [split] at arrive many
    rw [length_append] at many
    obtain ⟨keys, total, size⟩ := addPoints_few few message.1.heights inside
      fun k member => arrive k (mem_append_left _ member)
    have limits := maxAvg_addPoints (h := h) message.1.heights
    have added : h.addHeaders message.1 = message.1.heights.foldl addPoint h := if_pos filtering
    unfold banned receive
    rw [added]
    generalize message.1.heights.foldl addPoint h = next at keys total size limits
    by_cases quiet : next.nHeaders < 3 * h.maxSize.toNat
    · unfold updateState
      have later : ∀ {u : CNodeHeaders}, u = next → banned u rest := by
        rintro u rfl
        refine ih (by rw [size]; exact few) (by rw [limits.2]; exact active) keys
          (fun k member => arrive k (mem_append_right _ member)) (by rw [size]; exact quiet) ?_
        rw [size]
        omega
      split
      · rename_i dropped
        split at dropped
        · cases dropped
        · split at dropped
          · rfl
          · cases dropped
      · rename_i kept
        split at kept
        · cases kept
          exact later rfl
        · split at kept
          · cases kept
          · cases kept
            exact later rfl
    · have some : next.size ≠ 0 := by
        intro none
        have empty : next.points.entries = [] := length_eq_zero_iff.1 none
        have zero : next.nHeaders = 0 := by
          rw [nHeaders, OrderedMap.sumBy, empty]
          rfl
        omega
      have ban : next.BanNode := by
        refine .inr (.inr ?_)
        have wraps : (next.maxSize * 3).toNat ≤ 3 * h.maxSize.toNat := by
          rw [size, UInt64.toNat_mul]
          exact (Nat.mod_le _ _).trans (by rw [Nat.mul_comm]; exact Nat.le_refl _)
        omega
      rw [updateState, if_neg some, if_pos ban]

/-! ## Heights that are counted once -/

/-- Every height in the table was counted once, and there is room for all of them. -/
structure Single (h : CNodeHeaders) : Prop where
  once : ∀ k n, h.points.find? k = some n → n = 1
  size_le : h.size ≤ h.maxSize.toNat
  pos : 1 ≤ h.maxSize.toNat

theorem Single.filtering (single : h.Single) (average : 2 ≤ h.maxAvg.toNat) :
    h.maxSize ≠ 0 ∧ h.maxAvg ≠ 0 := by
  refine ⟨fun zero => ?_, fun zero => ?_⟩
  · have pos := single.pos
    rw [zero] at pos
    exact absurd pos (by decide)
  · rw [zero] at average
    exact absurd average (by decide)

theorem nHeaders_of_single (single : h.Single) : h.nHeaders = h.size := by
  have ones : ∀ entry ∈ h.points.entries, entry.2 = 1 := fun entry member =>
    single.once entry.1 entry.2 ((h.points.mem_entries_iff entry.1 entry.2).1 member)
  unfold nHeaders OrderedMap.sumBy size
  generalize h.points.entries = entries at ones
  induction entries with
  | nil => rfl
  | cons entry rest ih =>
    have first := ones entry (mem_cons_self ..)
    have later := ih fun entry member => ones entry (mem_cons_of_mem _ member)
    rw [map_cons, sum_cons, later, first, length_cons, Nat.add_comm]

section

variable (single : h.Single) (average : 2 ≤ h.maxAvg.toNat) (fits : 3 * h.maxSize.toNat < 2 ^ 64)
include single average fits

theorem not_banNode_of_single (some : h.size ≠ 0) : ¬ h.BanNode := by
  have count := nHeaders_of_single single
  have one : (h.nHeaders : ℚ) / h.size = 1 := by
    rw [count]
    exact div_self (by exact_mod_cast some)
  have atLeast : (2 : ℚ) ≤ h.maxAvg.toNat := by exact_mod_cast average
  have product : (h.maxSize * 3).toNat = 3 * h.maxSize.toNat := by
    rw [UInt64.toNat_mul, Nat.mul_comm]
    exact Nat.mod_eq_of_lt fits
  rintro (⟨high, _⟩ | ⟨high, _⟩ | high)
  · linarith
  · linarith
  · have bound := single.size_le
    have pos := single.pos
    omega

theorem updateState_of_single (ret : Bool) : h.updateState ret = (h, some ret) := by
  unfold updateState
  split
  · rfl
  · rename_i some
    rw [if_neg (not_banNode_of_single single average fits some)]

end

def room (h : CNodeHeaders) : OrderedMap Int Nat :=
  if h.size = h.maxSize.toNat then eraseFirst h.points else h.points

theorem length_insert {points : OrderedMap Int Nat} (new : points.find? height = none) (n : Nat) :
    (points.insert height n).entries.length = points.entries.length + 1 := by
  have count := points.count_insert height n fun _ => true
  simpa [OrderedMap.count, OrderedMap.sumBy, new] using count

theorem find?_room {n : Nat} (found : h.room.find? k = some n) :
    h.points.find? k = some n := by
  unfold room at found
  split at found
  · rw [← OrderedMap.mem_entries_iff] at found ⊢
    exact (tail_sublist _).mem found
  · exact found

theorem single_addPoint (single : h.Single) (new : height ∉ h.room.keys) :
    (h.addPoint height).Single := by
  have absent : h.room.find? height = none := by
    rw [OrderedMap.mem_keys_iff] at new
    simpa using new
  have points : (h.addPoint height).points = h.room.insert height 1 := by
    change h.room.insert height ((h.room.find? height).getD 0 + 1) = _
    rw [absent]
    rfl
  refine ⟨fun k n found => ?_, ?_, single.pos⟩
  · rw [points, OrderedMap.find?_insert] at found
    split at found
    · exact (Option.some.inj found).symm
    · exact single.once k n (find?_room found)
  · rw [size, points, length_insert absent]
    change h.room.entries.length + 1 ≤ h.maxSize.toNat
    have bound := single.size_le
    have pos := single.pos
    unfold room
    split
    · rename_i full
      have tail : (eraseFirst h.points).entries.length = h.size - 1 := by
        simp [eraseFirst, size]
      omega
    · change h.size + 1 ≤ _
      omega

/-! ## Each height at most once -/

theorem mem_keys_of_room (member : k ∈ h.room.keys) : k ∈ h.points.keys := by
  rw [OrderedMap.mem_keys_iff] at member ⊢
  obtain ⟨n, found⟩ := Option.isSome_iff_exists.1 member
  rw [find?_room found]
  rfl

theorem single_addPoints (heights : List Int) (single : h.Single) (distinct : heights.Nodup)
    (new : ∀ k ∈ heights, k ∉ h.points.keys) :
    (heights.foldl addPoint h).Single ∧
      ∀ k ∈ (heights.foldl addPoint h).points.keys, k ∈ heights ∨ k ∈ h.points.keys := by
  induction heights generalizing h with
  | nil => exact ⟨single, fun k member => .inr member⟩
  | cons height rest ih =>
    obtain ⟨fresh, later⟩ := nodup_cons.1 distinct
    have step := single_addPoint single fun member =>
      new height (mem_cons_self ..) (mem_keys_of_room member)
    obtain ⟨after, keys⟩ := ih step later fun k member known => by
      rcases mem_keys_addPoint known with rfl | old
      · exact fresh member
      · exact new k (mem_cons_of_mem _ member) old
    refine ⟨after, fun k member => ?_⟩
    rcases keys k member with here | known
    · exact .inl (mem_cons_of_mem _ here)
    · rcases mem_keys_addPoint known with rfl | old
      · exact .inl (mem_cons_self ..)
      · exact .inr old

theorem not_banned_of_distinct (average : 2 ≤ h.maxAvg.toNat) (fits : 3 * h.maxSize.toNat < 2 ^ 64)
    (messages : List (HeaderRange × Bool)) (single : h.Single)
    (distinct : (delivered messages).Nodup)
    (new : ∀ k ∈ delivered messages, k ∉ h.points.keys) : banned h messages = false := by
  induction messages generalizing h with
  | nil => rfl
  | cons message rest ih =>
    have split : delivered (message :: rest) = message.1.heights ++ delivered rest := rfl
    rw [split] at distinct new
    obtain ⟨here, later, apart⟩ := nodup_append.1 distinct
    have limits := maxAvg_addPoints (h := h) message.1.heights
    obtain ⟨after, keys⟩ := single_addPoints message.1.heights single here
      fun k member => new k (mem_append_left _ member)
    have kept : (h.addHeaders message.1).Single ∧ (h.addHeaders message.1).maxSize = h.maxSize ∧
        (h.addHeaders message.1).maxAvg = h.maxAvg ∧
        ∀ k ∈ (h.addHeaders message.1).points.keys, k ∈ message.1.heights ∨ k ∈ h.points.keys := by
      unfold addHeaders
      split
      · exact ⟨after, limits.1, limits.2, keys⟩
      · exact ⟨single, rfl, rfl, fun k member => .inr member⟩
    obtain ⟨now, size, avg, known⟩ := kept
    rw [banned, receive, updateState_of_single now (avg ▸ average) (size ▸ fits)]
    refine ih (avg ▸ average) (size ▸ fits) now later fun k member old => ?_
    rcases known k old with arrived | before
    · exact apart k arrived k member rfl
    · exact new k (mem_append_right _ member) before

/-! ## Repeating the least height -/

theorem addPoint_least (single : h.Single) (full : h.size = h.maxSize.toNat)
    (entries : h.points.entries = (least, 1) :: rest) :
    h.addPoint least = h := by
  have sorted := h.points.sorted
  rw [entries] at sorted
  have above := (pairwise_cons.1 sorted).1
  obtain ⟨points, maxSize, maxAvg⟩ := h
  have dropped : (eraseFirst points).entries = rest := by
    change points.entries.tail = rest
    rw [entries]
    rfl
  have gone : (eraseFirst points).find? least = none := by
    rw [← Option.not_isSome_iff_eq_none, ← OrderedMap.mem_keys_iff, OrderedMap.keys, dropped]
    intro member
    obtain ⟨entry, here, same⟩ := mem_map.1 member
    exact absurd (above entry here) (by rw [same]; exact lt_irrefl _)
  have again : OrderedMap.insertEntries least 1 rest = (least, 1) :: rest := by
    cases rest with
    | nil => rfl
    | cons next others =>
      obtain ⟨k, v⟩ := next
      rw [OrderedMap.insertEntries, if_pos (above (k, v) (mem_cons_self ..))]
  have same : (eraseFirst points).insert least 1 = points := by
    obtain ⟨list, ordered⟩ := points
    simp only [OrderedMap.insert, OrderedMap.mk.injEq]
    rw [dropped, again]
    exact entries.symm
  simp only [addPoint, if_pos full, gone, Option.getD_none, Nat.zero_add, same]

theorem receive_single (filtering : h.maxSize ≠ 0 ∧ h.maxAvg ≠ 0) (height : Int) (ret : Bool) :
    h.receive (.single height, ret) = (h.addPoint height).updateState ret := by
  rw [receive, addHeaders, if_pos filtering, HeaderRange.heights_single]
  rfl

theorem banned_fill (average : 2 ≤ h.maxAvg.toNat) (fits : 3 * h.maxSize.toNat < 2 ^ 64)
    (heights : List Int) (single : h.Single) (distinct : heights.Nodup)
    (new : ∀ k ∈ heights, k ∉ h.points.keys) (room : h.size + heights.length ≤ h.maxSize.toNat)
    (later : List (HeaderRange × Bool)) :
    banned h (heights.map (fun k => (.single k, true)) ++ later) =
        banned (heights.foldl addPoint h) later ∧
      (heights.foldl addPoint h).size = h.size + heights.length := by
  induction heights generalizing h with
  | nil => exact ⟨rfl, rfl⟩
  | cons height rest ih =>
    obtain ⟨fresh, others⟩ := nodup_cons.1 distinct
    rw [length_cons] at room
    have notFull : h.size ≠ h.maxSize.toNat := by omega
    have unknown := new height (mem_cons_self ..)
    have step := single_addPoint single fun member => unknown (mem_keys_of_room member)
    have grows : (h.addPoint height).size = h.size + 1 := by
      simp only [addPoint, if_neg notFull]
      exact length_insert (by simpa [OrderedMap.mem_keys_iff] using unknown) _
    obtain ⟨same, size⟩ := ih (h := h.addPoint height) average fits step others
      (fun k member known => by
        rcases mem_keys_addPoint known with rfl | old
        · exact fresh member
        · exact new k (mem_cons_of_mem _ member) old)
      (by change (h.addPoint height).size + _ ≤ h.maxSize.toNat; omega)
    refine ⟨?_, by rw [foldl_cons, size, grows, length_cons]; omega⟩
    rw [map_cons, cons_append, banned, receive_single (single.filtering average),
      updateState_of_single step average fits]
    exact same

theorem not_banned_repeat (average : 2 ≤ h.maxAvg.toNat) (fits : 3 * h.maxSize.toNat < 2 ^ 64)
    (single : h.Single) (full : h.size = h.maxSize.toNat)
    (entries : h.points.entries = (least, 1) :: rest) (count : Nat) :
    banned h (replicate count (.single least, true)) = false := by
  induction count with
  | zero => rfl
  | succ count ih =>
    rw [replicate_succ, banned, receive_single (single.filtering average), addPoint_least single full entries,
      updateState_of_single single average fits]
    exact ih

theorem single_empty (pos : 1 ≤ maxSize.toNat) :
    Single { maxSize, maxAvg } :=
  ⟨fun k n found => (by cases found), Nat.zero_le _, pos⟩

theorem evades (pos : 1 ≤ maxSize.toNat) (average : 2 ≤ maxAvg.toNat)
    (fits : 3 * maxSize.toNat < 2 ^ 64) (all : S.card = maxSize.toNat) (count : Nat) :
    ∃ messages, (∀ k ∈ delivered messages, k ∈ S) ∧ count ≤ (delivered messages).length ∧
      banned { maxSize, maxAvg } messages = false := by
  have start : Single { maxSize, maxAvg } := single_empty pos
  have length : S.toList.length = maxSize.toNat := by rw [Finset.length_toList, all]
  obtain ⟨after, keys⟩ := single_addPoints S.toList start S.nodup_toList
    fun k _ known => by cases known
  have fill := banned_fill average fits S.toList start S.nodup_toList
    (fun k _ known => by cases known) (by
      rw [length]
      exact Nat.le_of_eq (Nat.zero_add _))
  have limits := maxAvg_addPoints (h := { maxSize, maxAvg }) S.toList
  have full := (fill []).2
  generalize table : S.toList.foldl addPoint { maxSize, maxAvg } = h at after keys fill limits full
  have places : h.size = h.maxSize.toNat := by
    rw [full, limits.1, length]
    exact Nat.zero_add _
  -- the table holds every height once, so its first entry is the least one
  cases entries : h.points.entries with
  | nil =>
    have none : h.size = 0 := by rw [size, entries]; rfl
    have pos := after.pos
    omega
  | cons first rest =>
    obtain ⟨least, n⟩ := first
    have once : n = 1 := after.once least n
      ((h.points.mem_entries_iff least n).1 (by rw [entries]; exact mem_cons_self ..))
    subst once
    have member : least ∈ S := by
      have known : least ∈ h.points.keys := by
        rw [OrderedMap.keys, entries]
        exact mem_cons_self ..
      rcases keys least known with here | old
      · exact Finset.mem_toList.1 here
      · cases old
    refine ⟨S.toList.map (fun k => (.single k, true)) ++ replicate count (.single least, true),
      fun k arrived => ?_, ?_, ?_⟩
    · obtain ⟨message, here, inside⟩ := mem_flatMap.1 arrived
      rcases mem_append.1 here with first | again
      · obtain ⟨height, listed, rfl⟩ := mem_map.1 first
        rw [HeaderRange.heights_single] at inside
        rw [mem_singleton.1 inside]
        exact Finset.mem_toList.1 listed
      · rw [(mem_replicate.1 again).2, HeaderRange.heights_single] at inside
        rw [mem_singleton.1 inside]
        exact member
    · have repeated : ∀ n, (delivered (replicate n (.single least, true))).length = n := by
        intro n
        induction n with
        | zero => rfl
        | succ n ih =>
          rw [replicate_succ, delivered, flatMap_cons, length_append,
            HeaderRange.heights_single]
          change 1 + (delivered _).length = _
          rw [ih]
          omega
      rw [delivered, flatMap_append, length_append]
      have tail := repeated count
      rw [delivered] at tail
      omega
    · rw [(fill _).1]
      exact not_banned_repeat (by rw [limits.2]; exact average) (by rw [limits.1]; exact fits) after
        places entries count

/-- The filter notices `3 * maxSize` headers over a set of heights exactly when the set is smaller
than its table; a peer that sends each height once is never banned. -/
theorem header_spam_filter (maxSize maxAvg : UInt64) (pos : 1 ≤ maxSize.toNat)
    (average : 2 ≤ maxAvg.toNat) (fits : 3 * maxSize.toNat < 2 ^ 64) :
    (∀ S : Finset Int, S.card ≤ maxSize.toNat →
      ((∀ messages, (∀ k ∈ delivered messages, k ∈ S) →
          3 * maxSize.toNat ≤ (delivered messages).length →
          banned { maxSize, maxAvg } messages = true) ↔
        S.card < maxSize.toNat)) ∧
    ∀ messages, (delivered messages).Nodup → banned { maxSize, maxAvg } messages = false := by
  refine ⟨fun S small => ⟨fun noticed => ?_, fun few messages inside many => ?_⟩,
    fun messages distinct => ?_⟩
  · refine lt_of_le_of_ne small fun all => ?_
    obtain ⟨messages, inside, many, quiet⟩ := evades pos average fits all (3 * maxSize.toNat)
    rw [noticed messages inside many] at quiet
    cases quiet
  · refine banned_of_few (h := { maxSize, maxAvg }) few (fun zero => ?_) messages
      (fun k known => by cases known) inside ?_ ?_
    · change maxAvg = 0 at zero
      rw [zero] at average
      exact absurd average (by decide)
    · exact Nat.lt_of_lt_of_le (Nat.zero_lt_succ 2) (Nat.le_mul_of_pos_right 3 pos)
    · change 3 * maxSize.toNat ≤ 0 + _
      omega
  · exact not_banned_of_distinct (h := { maxSize, maxAvg }) average fits messages
      (single_empty pos) distinct fun k _ known => by cases known

theorem header_spam_filter_small :
    (∀ messages, (∀ k ∈ delivered messages, k ∈ ({7} : Finset Int)) →
      6 ≤ (delivered messages).length → banned { maxSize := 2, maxAvg := 2 } messages = true) ∧
    banned { maxSize := 2, maxAvg := 2 } [(⟨some 1, some 9⟩, true)] = false := by
  have filter := header_spam_filter 2 2 (by decide) (by decide) (by decide)
  exact ⟨(filter.1 {7} (by decide)).2 (by decide), filter.2 _ (by decide)⟩

/-- Two places: after heights 5 and 8, height 5 can be repeated. -/
theorem least_height_evades :
    banned { maxSize := 2, maxAvg := 2 } (([5, 8] ++ List.replicate 40 5).map fun k =>
      (.single k, true)) = false ∧
    (delivered (([5, 8] ++ List.replicate 40 5).map fun k => (.single k, true))).length = 42 ∧
    ∀ k ∈ delivered (([5, 8] ++ List.replicate 40 5).map fun k => (.single k, true)),
      k ∈ ({5, 8} : Finset Int) :=
  ⟨by decide +kernel, by decide +kernel, by decide +kernel⟩

end CNodeHeaders
end Artax
