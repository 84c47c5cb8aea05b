import Mathlib.Logic.Function.Basic

/-!
# Write-back caches

A base map and the entries that were read from it or written since. A written entry is dirty, and one
is fresh if the base is known to have nothing under its key. As long as nothing is added as new under
a key in use, the cache changes as the map would.
-/

namespace Artax.Util

open Function

/-- What a cache holds for a key: the value read or written last, `none` once it was removed. -/
structure CacheEntry (α : Type*) where
  value : Option α
  dirty : Bool
  fresh : Bool

structure WriteCache (κ α : Type*) where
  base : κ → Option α
  entries : κ → Option (CacheEntry α)

namespace WriteCache

variable {κ α : Type*}

def onBase (base : κ → Option α) : WriteCache κ α := ⟨base, fun _ => none⟩

variable (c : WriteCache κ α)

def read (k : κ) : Option α :=
  match c.entries k with
  | some e => e.value
  | none => c.base k

def writeBack (k : κ) : Option α :=
  match c.entries k with
  | some e => if e.dirty then e.value else c.base k
  | none => c.base k

/-- The flags say the truth about the base. -/
structure Coherent (c : WriteCache κ α) : Prop where
  fresh : ∀ k e, c.entries k = some e → e.fresh = true → c.base k = none
  clean : ∀ k e, c.entries k = some e → e.dirty = false → e.value = c.base k

/-- A coherent cache whose values are those of a map. -/
structure Holds (c : WriteCache κ α) (m : κ → Option α) : Prop where
  coherent : c.Coherent
  read : c.read = m

/-- A key without an entry has nothing below either. -/
def Covers (k : κ) : Prop := c.entries k = none → c.base k = none

variable {c c' : WriteCache κ α} {m : κ → Option α} {k : κ} {v : α}

theorem read_of_entries_none (missing : c.entries k = none) : c.read k = c.base k := by
  simp [read, missing]

theorem read_of_entries_some {e : CacheEntry α} (found : c.entries k = some e) :
    c.read k = e.value := by
  simp [read, found]

theorem holds_onBase (base : κ → Option α) : (onBase base).Holds base :=
  ⟨⟨fun _ _ found => by simp [onBase] at found, fun _ _ found => by simp [onBase] at found⟩, rfl⟩

theorem Holds.writeBack (holds : c.Holds m) : c.writeBack = m := by
  obtain ⟨coherent, rfl⟩ := holds
  funext k
  cases found : c.entries k with
  | none => simp [WriteCache.writeBack, WriteCache.read, found]
  | some e =>
    rw [read_of_entries_some found]
    cases isDirty : e.dirty with
    | true => simp [WriteCache.writeBack, found, isDirty]
    | false => simp [WriteCache.writeBack, found, isDirty, coherent.clean k e found isDirty]

theorem Holds.covers (holds : c.Holds m) (free : m k = none) : c.Covers k := by
  intro missing
  rw [← read_of_entries_none missing, holds.read]
  exact free

section

variable [DecidableEq κ]

def put (c : WriteCache κ α) (k : κ) (e : Option (CacheEntry α)) : WriteCache κ α :=
  { c with entries := Function.update c.entries k e }

def fetch (c : WriteCache κ α) (k : κ) : WriteCache κ α :=
  match c.entries k, c.base k with
  | none, some v => c.put k (some ⟨some v, false, false⟩)
  | _, _ => c

/-- Writes a value. One that is added as new must not replace an entry with a value, and its entry
is fresh unless there was a dirty one. -/
def add (c : WriteCache κ α) (k : κ) (v : α) (overwrite : Bool) : Option (WriteCache κ α) :=
  let e := (c.entries k).getD ⟨none, false, false⟩
  if !overwrite && e.value.isSome then none
  else some (c.put k (some ⟨some v, true, e.fresh || (!overwrite && !e.dirty)⟩))

def remove (c : WriteCache κ α) (k : κ) : WriteCache κ α × Option (Option α) :=
  let c := c.fetch k
  match c.entries k with
  | none => (c, none)
  | some e => (c.put k (if e.fresh then none else some ⟨none, true, false⟩), some e.value)

theorem read_put_some (e : CacheEntry α) :
    (c.put k (some e)).read = update c.read k e.value := by
  funext j
  by_cases same : j = k
  · subst same
    simp [read, put]
  · simp [read, put, update_of_ne same]

theorem read_put_none : (c.put k none).read = update c.read k (c.base k) := by
  funext j
  by_cases same : j = k
  · subst same
    simp [read, put]
  · simp [read, put, update_of_ne same]

variable {e : Option (CacheEntry α)} {j : κ} {overwrite : Bool}

theorem coherent_put (coherent : c.Coherent) (fresh : ∀ e' ∈ e, e'.fresh → c.base k = none)
    (clean : ∀ e' ∈ e, e'.dirty = false → e'.value = c.base k) : (c.put k e).Coherent := by
  constructor
  · intro j e' found isFresh
    by_cases same : j = k
    · subst same
      exact fresh e' (by simpa [put] using found) isFresh
    · exact coherent.fresh j e' (by simpa [put, update_of_ne same] using found) isFresh
  · intro j e' found isClean
    by_cases same : j = k
    · subst same
      exact clean e' (by simpa [put] using found) isClean
    · exact coherent.clean j e' (by simpa [put, update_of_ne same] using found) isClean

theorem Covers.put (covers : c.Covers j) (dropped : e = none → c.base k = none) :
    (c.put k e).Covers j := by
  intro missing
  by_cases same : j = k
  · subst same
    exact dropped (by simpa [WriteCache.put] using missing)
  · exact covers (by simpa [WriteCache.put, update_of_ne same] using missing)

theorem Holds.fetch (holds : c.Holds m) (k : κ) : (c.fetch k).Holds m := by
  unfold WriteCache.fetch
  split
  · rename_i v missing found
    refine ⟨coherent_put holds.coherent ?_ ?_, ?_⟩
    · rintro e' ⟨⟩ isFresh
      cases isFresh
    · rintro e' ⟨⟩ _
      exact found.symm
    · have unchanged : c.read k = some v := (read_of_entries_none missing).trans found
      rw [read_put_some, ← holds.read, ← unchanged, update_eq_self]
  · exact holds

theorem Covers.fetch (covers : c.Covers j) (k : κ) : (c.fetch k).Covers j := by
  unfold WriteCache.fetch
  split
  · exact covers.put (by simp)
  · exact covers

theorem read_of_fetch_none (missing : (c.fetch k).entries k = none) : c.read k = none := by
  unfold fetch at missing
  split at missing
  · simp [put] at missing
  · rename_i notBelow
    rw [read_of_entries_none missing]
    cases below : c.base k with
    | none => rfl
    | some v => exact (notBelow v missing below).elim

theorem Holds.add (holds : c.Holds m) (free : overwrite = false → m k = none) (v : α) :
    ∃ c', c.add k v overwrite = some c' ∧ c'.Holds (update m k (some v)) := by
  obtain ⟨coherent, rfl⟩ := holds
  -- what is known of the entry that is replaced, or of the empty one
  have replaced : ∀ e, e = (c.entries k).getD ⟨none, false, false⟩ →
      (e.fresh → c.base k = none) ∧
      (overwrite = false → e.value = none ∧ (e.dirty = false → c.base k = none)) := by
    rintro e rfl
    cases found : c.entries k with
    | none =>
      refine ⟨fun isFresh => by simp at isFresh, fun new => ⟨rfl, fun _ => ?_⟩⟩
      rw [← read_of_entries_none found]
      exact free new
    | some e =>
      refine ⟨coherent.fresh k e found, fun new => ?_⟩
      have value : e.value = none := by
        rw [← read_of_entries_some found]
        exact free new
      exact ⟨value, fun isClean => by rw [← coherent.clean k e found isClean]; exact value⟩
  obtain ⟨fresh, new⟩ := replaced _ rfl
  refine ⟨c.put k (some ⟨some v, true, _⟩), if_neg ?_, coherent_put coherent ?_ ?_, ?_⟩
  · cases overwrite with
    | true => simp
    | false => simp [(new rfl).1]
  · rintro e' ⟨⟩ isFresh
    simp only [Bool.or_eq_true, Bool.and_eq_true, Bool.not_eq_true'] at isFresh
    rcases isFresh with old | ⟨isNew, isClean⟩
    · exact fresh old
    · exact (new isNew).2 isClean
  · rintro e' ⟨⟩ isClean
    cases isClean
  · exact read_put_some _

theorem read_of_add (added : c.add k v false = some c') (covers : c.Covers k) : c.read k = none := by
  cases found : c.entries k with
  | none => rw [read_of_entries_none found, covers found]
  | some e =>
    rw [read_of_entries_some found]
    by_contra used
    simp [add, found, Option.isSome_iff_ne_none.2 used] at added

theorem Covers.add (covers : c.Covers j) (added : c.add k v overwrite = some c') : c'.Covers j := by
  unfold WriteCache.add at added
  simp only [Option.ite_none_left_eq_some, Option.some.injEq] at added
  rw [← added.2]
  exact covers.put (by simp)

theorem Holds.clear {e : CacheEntry α} (holds : c.Holds m) (found : c.entries k = some e) :
    (c.put k (if e.fresh then none else some ⟨none, true, false⟩)).Holds
      (update m k none) := by
  refine ⟨coherent_put holds.coherent (by split <;> simp) (by split <;> simp), ?_⟩
  cases isFresh : e.fresh with
  | true => rw [if_pos rfl, read_put_none, holds.coherent.fresh k e found isFresh, holds.read]
  | false => rw [if_neg Bool.false_ne_true, read_put_some, holds.read]

theorem Holds.remove (holds : c.Holds m) (k : κ) :
    (c.remove k).1.Holds (update m k none) ∧
      ∀ v, m k = some v → (c.remove k).2 = some (some v) := by
  have fetched := holds.fetch k
  unfold WriteCache.remove
  cases found : (c.fetch k).entries k with
  | none =>
    have empty : m k = none := by
      rw [← holds.read]
      exact read_of_fetch_none found
    simp only [found]
    refine ⟨?_, fun v used => ?_⟩
    · rw [← empty, update_eq_self]
      exact fetched
    · rw [empty] at used
      cases used
  | some e =>
    have value : m k = e.value := by rw [← fetched.read, read_of_entries_some found]
    simp only [found]
    exact ⟨fetched.clear found, fun v used => by rw [← used, value]⟩

theorem Covers.remove (covers : c.Covers j) (coherent : c.Coherent) (k : κ) :
    (c.remove k).1.Covers j := by
  have fetched := (Holds.mk coherent rfl).fetch k
  unfold WriteCache.remove
  cases found : (c.fetch k).entries k with
  | none =>
    simp only [found]
    exact covers.fetch k
  | some e =>
    simp only [found]
    refine (covers.fetch k).put fun dropped => ?_
    have isFresh : e.fresh := by simpa using dropped
    exact fetched.coherent.fresh k e found isFresh

end

end WriteCache
end Artax.Util
