import Artax.Util.WriteCache
import Mathlib.Data.List.AList

/-!
# Stacks of write-back caches

Write-back caches over each other and a base. Reads fill the caches they go through, writes change
the top, and flushing merges the dirty entries into what is below. Each cache stays coherent as long
as nothing is added as new under a key in use.
-/

namespace Artax.Util

open List Function WriteCache

variable {κ α : Type} [DecidableEq κ]

abbrev CacheLayer (κ α : Type) := AList fun _ : κ => CacheEntry α

structure CacheStack (κ α : Type) where
  layers : List (CacheLayer κ α)
  base : κ → Option α

namespace CacheLayer

variable (layer : CacheLayer κ α)

def onto (below : κ → Option α) : WriteCache κ α :=
  ⟨below, fun k => layer.lookup k⟩

def uncache (k : κ) : CacheLayer κ α :=
  match layer.lookup k with
  | some e => if !e.dirty && !e.fresh then layer.erase k else layer
  | none => layer

def merge (entry : Sigma fun _ : κ => CacheEntry α) : Option (CacheLayer κ α) :=
  let ⟨k, e⟩ := entry
  if !e.dirty then some layer
  else match layer.lookup k with
    | none =>
      if e.fresh && e.value.isNone then some layer
      else some (layer.insert k ⟨e.value, true, e.fresh⟩)
    | some us =>
      if e.fresh && us.value.isSome then none
      else if us.fresh && e.value.isNone then some (layer.erase k)
      else some (layer.insert k ⟨e.value, true, us.fresh⟩)

def writeTo (base : κ → Option α) (entry : Sigma fun _ : κ => CacheEntry α) :
    Option (κ → Option α) :=
  some (if entry.2.dirty then Function.update base entry.1 entry.2.value else base)

variable {layer : CacheLayer κ α} {below : κ → Option α} {k : κ} {e : CacheEntry α}

theorem onto_insert : onto (layer.insert k e) below = (layer.onto below).put k (some e) := by
  unfold onto put
  congr
  funext j
  by_cases same : j = k
  · subst same
    rw [AList.lookup_insert, update_self]
  · rw [AList.lookup_insert_ne same, update_of_ne same]

theorem onto_erase : onto (layer.erase k) below = (layer.onto below).put k none := by
  unfold onto put
  congr
  funext j
  by_cases same : j = k
  · subst same
    rw [AList.lookup_erase, update_self]
  · rw [AList.lookup_erase_ne same, update_of_ne same]

theorem onto_empty : (onto ∅ below : WriteCache κ α) = .onBase below := rfl

theorem holds_uncache {m : κ → Option α} (holds : (layer.onto below).Holds m) (k : κ) :
    (onto (layer.uncache k) below).Holds m := by
  unfold uncache
  split
  · rename_i e found
    split
    · rename_i flags
      rw [Bool.and_eq_true, Bool.not_eq_true', Bool.not_eq_true'] at flags
      have value : m k = below k := by
        rw [← holds.read, read_of_entries_some (c := layer.onto below) found]
        exact holds.coherent.clean k e found flags.1
      rw [onto_erase]
      refine ⟨coherent_put holds.coherent (by simp) (by simp), ?_⟩
      rw [read_put_none, holds.read]
      change update m k (below k) = m
      rw [← value, update_eq_self]
    · exact holds
  · exact holds

end CacheLayer

/-! ## Merging -/

/-- An entry says the truth about the values below it. -/
def Truthful (m : κ → Option α) (entry : Sigma fun _ : κ => CacheEntry α) : Prop :=
  (entry.2.fresh = true → m entry.1 = none) ∧ (entry.2.dirty = false → entry.2.value = m entry.1)

def overlay (entries : List (Sigma fun _ : κ => CacheEntry α)) (m : κ → Option α) : κ → Option α :=
  entries.foldl (fun m entry => Function.update m entry.1 entry.2.value) m

variable {entries : List (Sigma fun _ : κ => CacheEntry α)} {layer child : CacheLayer κ α}
  {below : κ → Option α}

/-- Entries with different keys that are truthful, written one after the other into something whose
values are updated by each. -/
theorem foldlM_overlay {σ : Type} (values : σ → κ → Option α) (good : σ → Prop)
    {step : σ → (Sigma fun _ : κ => CacheEntry α) → Option σ}
    (each : ∀ s entry, good s → Truthful (values s) entry → ∃ s', step s entry = some s' ∧
      good s' ∧ values s' = update (values s) entry.1 entry.2.value)
    (nodup : entries.NodupKeys) {s : σ} (start : good s)
    (truthful : ∀ entry ∈ entries, Truthful (values s) entry) :
    ∃ s', entries.foldlM step s = some s' ∧ good s' ∧ values s' = overlay entries (values s) := by
  induction entries generalizing s with
  | nil => exact ⟨s, rfl, start, rfl⟩
  | cons entry rest ih =>
    obtain ⟨fresh, restNodup⟩ := nodupKeys_cons.1 nodup
    obtain ⟨middle, stepped, good, written⟩ := each s entry start
      (truthful entry mem_cons_self)
    have later : ∀ other ∈ rest, Truthful (values middle) other := by
      intro other member
      have different : other.1 ≠ entry.1 := fun same =>
        fresh (same ▸ mem_keys_of_mem member)
      unfold Truthful
      rw [written, update_of_ne different]
      exact truthful other (mem_cons_of_mem _ member)
    obtain ⟨after, ran, goodAfter, result⟩ := ih restNodup good later
    refine ⟨after, ?_, goodAfter, ?_⟩
    · rw [foldlM_cons, stepped]
      exact ran
    · rw [result, written]
      rfl

theorem overlay_of_notMem {m : κ → Option α} {k : κ} (missing : k ∉ entries.keys) :
    overlay entries m k = m k := by
  induction entries generalizing m with
  | nil => rfl
  | cons entry rest ih =>
    rw [keys_cons, mem_cons, not_or] at missing
    rw [overlay, foldl_cons, ← overlay, ih missing.2, update_of_ne missing.1]

theorem CacheLayer.read_onto (layer : CacheLayer κ α) (below : κ → Option α) :
    (layer.onto below).read = overlay layer.entries below := by
  funext k
  unfold WriteCache.read CacheLayer.onto AList.lookup
  dsimp only
  have nodup := layer.nodupKeys
  generalize layer.entries = entries at nodup ⊢
  induction entries generalizing below with
  | nil => rfl
  | cons entry rest ih =>
    obtain ⟨fresh, restNodup⟩ := nodupKeys_cons.1 nodup
    obtain ⟨key, e⟩ := entry
    rw [overlay, foldl_cons, ← overlay]
    by_cases same : k = key
    · subst same
      rw [dlookup_cons_eq, overlay_of_notMem fresh, update_self]
    · rw [dlookup_cons_ne _ _ same]
      rw [← ih _ restNodup, update_of_ne same]

section

variable (coherent : (layer.onto below).Coherent) {entry : Sigma fun _ : κ => CacheEntry α}
include coherent

theorem CacheLayer.truthful_of_mem (member : entry ∈ layer.entries) : Truthful below entry := by
  have found : layer.lookup entry.1 = some entry.2 := AList.mem_lookup_iff.2 member
  exact ⟨coherent.fresh _ _ found, coherent.clean _ _ found⟩

theorem CacheLayer.exists_merge (truthful : Truthful (layer.onto below).read entry) :
    ∃ layer', layer.merge entry = some layer' ∧ (onto layer' below).Coherent ∧
      (onto layer' below).read = update (layer.onto below).read entry.1 entry.2.value := by
  obtain ⟨k, e⟩ := entry
  obtain ⟨fresh, clean⟩ := truthful
  unfold merge
  dsimp only
  cases dirty : e.dirty with
  | false =>
    refine ⟨layer, rfl, coherent, ?_⟩
    rw [clean dirty, update_eq_self]
  | true =>
    rw [if_neg (by simp)]
    cases found : layer.lookup k with
    | none =>
      have reads : (layer.onto below).read k = below k :=
        read_of_entries_none (c := layer.onto below) found
      dsimp only
      split
      · rename_i dropped
        rw [Bool.and_eq_true, Option.isNone_iff_eq_none] at dropped
        refine ⟨layer, rfl, coherent, ?_⟩
        rw [dropped.2, ← fresh dropped.1, update_eq_self]
      · refine ⟨_, rfl, ?_⟩
        rw [onto_insert]
        refine ⟨coherent_put coherent ?_ (by simp), read_put_some _⟩
        rintro e' ⟨⟩ isFresh
        exact reads.symm.trans (fresh isFresh)
    | some us =>
      have reads : (layer.onto below).read k = us.value :=
        read_of_entries_some (c := layer.onto below) found
      dsimp only
      have allowed : (e.fresh && us.value.isSome) = false := by
        cases isFresh : e.fresh with
        | false => rfl
        | true =>
          rw [← reads, fresh isFresh]
          rfl
      rw [allowed, if_neg Bool.false_ne_true]
      split
      · rename_i dropped
        rw [Bool.and_eq_true, Option.isNone_iff_eq_none] at dropped
        refine ⟨_, rfl, ?_⟩
        rw [onto_erase]
        refine ⟨coherent_put coherent (by simp) (by simp), ?_⟩
        rw [read_put_none, dropped.2]
        exact congrArg _ (coherent.fresh k us found dropped.1)
      · refine ⟨_, rfl, ?_⟩
        rw [onto_insert]
        refine ⟨coherent_put coherent ?_ (by simp), read_put_some _⟩
        rintro e' ⟨⟩ isFresh
        exact coherent.fresh k us found isFresh

theorem CacheLayer.exists_mergeAll (above : (child.onto (layer.onto below).read).Coherent) :
    ∃ layer', child.entries.foldlM merge layer = some layer' ∧ (onto layer' below).Coherent ∧
      (onto layer' below).read = (child.onto (layer.onto below).read).read := by
  rw [read_onto child]
  exact foldlM_overlay (fun layer : CacheLayer κ α => (layer.onto below).read)
    (fun layer : CacheLayer κ α => (layer.onto below).Coherent)
    (fun _ _ good truthful => exists_merge good truthful) child.nodupKeys coherent
    fun _ member => truthful_of_mem above member

end

theorem CacheLayer.exists_writeAll {base : κ → Option α} (above : (child.onto base).Coherent) :
    child.entries.foldlM writeTo base = some (child.onto base).read := by
  have each : ∀ (m : κ → Option α) (entry : Sigma fun _ : κ => CacheEntry α), True →
      Truthful m entry → ∃ m', writeTo m entry = some m' ∧ True ∧
        m' = update m entry.1 entry.2.value := by
    intro m entry _ truthful
    refine ⟨_, rfl, trivial, ?_⟩
    cases dirty : entry.2.dirty with
    | true => rfl
    | false => rw [truthful.2 dirty, update_eq_self, if_neg Bool.false_ne_true]
  obtain ⟨m', ran, -, result⟩ := foldlM_overlay (fun m : κ → Option α => m)
    (fun _ => True) each child.nodupKeys trivial
    fun _ member => truthful_of_mem above member
  rw [ran, read_onto, result]

/-! ## Stacks -/

namespace CacheStack

def readLayers (base : κ → Option α) : List (CacheLayer κ α) → κ → Option α
  | [] => base
  | layer :: rest => (layer.onto (readLayers base rest)).read

variable (s : CacheStack κ α)

def read : κ → Option α := readLayers s.base s.layers

def readAt (depth : Nat) : κ → Option α :=
  readLayers s.base (s.layers.drop depth)

/-- Each layer is coherent over what is read below it. -/
def CoherentLayers (base : κ → Option α) : List (CacheLayer κ α) → Prop
  | [] => True
  | layer :: rest => (layer.onto (readLayers base rest)).Coherent ∧ CoherentLayers base rest

/-- A coherent stack whose values are those of a map. -/
structure Holds (s : CacheStack κ α) (m : κ → Option α) : Prop where
  coherent : CoherentLayers s.base s.layers
  read : s.read = m

def onBase (base : κ → Option α) (height : Nat) : CacheStack κ α :=
  ⟨List.replicate height ∅, base⟩

def fetchLayers (base : κ → Option α) (k : κ) : List (CacheLayer κ α) → List (CacheLayer κ α)
  | [] => []
  | layer :: rest =>
    match layer.lookup k with
    | some _ => layer :: rest
    | none =>
      match readLayers base rest k with
      | some v => layer.insert k ⟨some v, false, false⟩ :: fetchLayers base k rest
      | none => layer :: fetchLayers base k rest

def fetch (k : κ) : CacheStack κ α :=
  { s with layers := fetchLayers s.base k s.layers }

def entry (k : κ) : Option (CacheEntry α) :=
  s.layers.head?.bind fun layer => layer.lookup k

/-- Writes a value at the top. One that is added as new must not replace an entry with a value, and
its entry is fresh unless there was a dirty one. -/
def add (k : κ) (v : α) (overwrite : Bool) : Option (CacheStack κ α) :=
  match s.layers with
  | [] => none
  | layer :: rest =>
    let e := (layer.lookup k).getD ⟨none, false, false⟩
    if !overwrite && e.value.isSome then none
    else some { s with
      layers := layer.insert k ⟨some v, true, e.fresh || (!overwrite && !e.dirty)⟩ :: rest }

def remove (k : κ) : CacheStack κ α × Option (Option α) :=
  match (s.fetch k).layers with
  | [] => (s.fetch k, none)
  | layer :: rest =>
    match layer.lookup k with
    | none => (s.fetch k, none)
    | some e =>
      ({ s with layers := (if e.fresh then layer.erase k
          else layer.insert k ⟨none, true, false⟩) :: rest }, some e.value)

def uncache (s : CacheStack κ α) (depth : Nat) (k : κ) : CacheStack κ α :=
  { s with layers := s.layers.modify depth fun layer => layer.uncache k }

def flushLayers : Nat → List (CacheLayer κ α) → (κ → Option α) →
    Option (List (CacheLayer κ α) × (κ → Option α))
  | _, [], base => some ([], base)
  | 0, [layer], base =>
    (layer.entries.foldlM CacheLayer.writeTo base).map fun base => ([∅], base)
  | 0, layer :: parent :: rest, base =>
    (layer.entries.foldlM CacheLayer.merge parent).map fun parent => (∅ :: parent :: rest, base)
  | depth + 1, layer :: rest, base =>
    (flushLayers depth rest base).map fun below => (layer :: below.1, below.2)

def flush (depth : Nat) : Option (CacheStack κ α) :=
  (flushLayers depth s.layers s.base).map fun below => ⟨below.1, below.2⟩

def flushAll : Option (CacheStack κ α) :=
  (List.range s.layers.length).foldlM flush s

variable {s : CacheStack κ α} {base : κ → Option α} {layers : List (CacheLayer κ α)}
  {m : κ → Option α}

theorem holds_of_empty (empty : ∀ layer ∈ layers, layer = ∅) :
    CoherentLayers base layers ∧ readLayers base layers = base := by
  induction layers with
  | nil => exact ⟨trivial, rfl⟩
  | cons layer rest ih =>
    obtain ⟨coherent, reads⟩ := ih fun other member => empty other (mem_cons_of_mem _ member)
    have fresh := holds_onBase base
    rw [empty layer mem_cons_self, CoherentLayers, readLayers, CacheLayer.onto_empty, reads]
    exact ⟨⟨fresh.coherent, coherent⟩, fresh.read⟩

theorem holds_onBase (base : κ → Option α) (height : Nat) : (onBase base height).Holds base := by
  have empty : CoherentLayers base (replicate height ∅) ∧
      readLayers base (replicate height ∅) = base :=
    holds_of_empty fun _ member => eq_of_mem_replicate member
  exact ⟨empty.1, empty.2⟩

/-- Other layers that are coherent and read the same at every depth. -/
structure SameReads (base : κ → Option α) (layers layers' : List (CacheLayer κ α)) : Prop where
  coherent : CoherentLayers base layers'
  reads : ∀ depth, readLayers base (layers'.drop depth) = readLayers base (layers.drop depth)

theorem SameReads.refl (coherent : CoherentLayers base layers) : SameReads base layers layers :=
  ⟨coherent, fun _ => rfl⟩

theorem SameReads.cons {layer layer' : CacheLayer κ α} {rest rest' : List (CacheLayer κ α)}
    (below : SameReads base rest rest')
    (holds : (layer'.onto (readLayers base rest)).Holds (readLayers base (layer :: rest))) :
    SameReads base (layer :: rest) (layer' :: rest') := by
  have same : readLayers base rest' = readLayers base rest := below.reads 0
  refine ⟨⟨?_, below.coherent⟩, fun depth => ?_⟩
  · rw [same]
    exact holds.coherent
  · cases depth with
    | zero =>
      rw [drop_zero, drop_zero, readLayers, same]
      exact holds.read
    | succ depth => exact below.reads depth

theorem sameReads_fetchLayers (k : κ) (coherent : CoherentLayers base layers) :
    SameReads base layers (fetchLayers base k layers) := by
  induction layers with
  | nil => exact .refl coherent
  | cons layer rest ih =>
    have below := ih coherent.2
    rw [fetchLayers]
    split
    · exact .refl coherent
    · rename_i missing
      have holds : (layer.onto (readLayers base rest)).Holds (readLayers base (layer :: rest)) :=
        ⟨coherent.1, rfl⟩
      split
      · rename_i v found
        have fetched : (layer.onto (readLayers base rest)).fetch k =
            CacheLayer.onto (layer.insert k ⟨some v, false, false⟩) (readLayers base rest) := by
          rw [CacheLayer.onto_insert]
          unfold WriteCache.fetch CacheLayer.onto
          dsimp only
          rw [missing, found]
        exact below.cons (fetched ▸ holds.fetch k)
      · exact below.cons holds

theorem sameReads_uncache (k : κ) (depth : Nat) (coherent : CoherentLayers base layers) :
    SameReads base layers (layers.modify depth fun layer => layer.uncache k) := by
  induction layers generalizing depth with
  | nil =>
    rw [modify_nil]
    exact .refl coherent
  | cons layer rest ih =>
    have holds : (layer.onto (readLayers base rest)).Holds (readLayers base (layer :: rest)) :=
      ⟨coherent.1, rfl⟩
    cases depth with
    | zero => exact (SameReads.refl coherent.2).cons (CacheLayer.holds_uncache holds k)
    | succ depth => exact (ih depth coherent.2).cons holds

theorem Holds.fetch (holds : s.Holds m) (k : κ) :
    (s.fetch k).Holds m ∧ ∀ depth, (s.fetch k).readAt depth = s.readAt depth := by
  obtain ⟨coherent, reads⟩ := sameReads_fetchLayers k holds.coherent
  exact ⟨⟨coherent, (reads 0).trans holds.read⟩, reads⟩

theorem Holds.uncache (holds : s.Holds m) (which : Nat) (k : κ) :
    (s.uncache which k).Holds m ∧ ∀ depth, (s.uncache which k).readAt depth = s.readAt depth := by
  obtain ⟨coherent, reads⟩ := sameReads_uncache k which holds.coherent
  exact ⟨⟨coherent, (reads 0).trans holds.read⟩, reads⟩

variable {layer : CacheLayer κ α} {rest : List (CacheLayer κ α)}

theorem holds_cons (coherent : CoherentLayers base rest)
    (holds : (layer.onto (readLayers base rest)).Holds m) :
    CacheStack.Holds ⟨layer :: rest, base⟩ m :=
  ⟨⟨holds.coherent, coherent⟩, holds.read⟩

theorem Holds.add (holds : s.Holds m) (nonempty : s.layers ≠ []) {k : κ} {overwrite : Bool}
    (free : overwrite = false → m k = none) (v : α) :
    ∃ s', s.add k v overwrite = some s' ∧ s'.Holds (update m k (some v)) ∧
      s'.layers.length = s.layers.length := by
  obtain ⟨layers, base⟩ := s
  obtain ⟨coherent, rfl⟩ := holds
  cases layers with
  | nil => exact absurd rfl nonempty
  | cons layer rest =>
    obtain ⟨c', added, after⟩ := (WriteCache.Holds.mk coherent.1 rfl).add free v
    unfold WriteCache.add at added
    unfold CacheStack.add
    dsimp only [CacheLayer.onto] at added ⊢
    rw [Option.ite_none_left_eq_some] at added
    obtain ⟨allowed, written⟩ := added
    rw [if_neg allowed]
    refine ⟨_, rfl, ?_, rfl⟩
    cases written
    refine holds_cons coherent.2 ?_
    rw [CacheLayer.onto_insert]
    exact after

theorem length_fetchLayers (k : κ) : (fetchLayers base k layers).length = layers.length := by
  induction layers with
  | nil => rfl
  | cons layer rest ih =>
    rw [fetchLayers]
    split
    · rfl
    · split <;> exact congrArg Nat.succ ih

theorem read_of_lookup_none {k : κ} (fetched : fetchLayers base k layers = layer :: rest)
    (missing : layer.lookup k = none) :
    readLayers base layers k = none := by
  cases layers with
  | nil => cases fetched
  | cons top below =>
    rw [fetchLayers] at fetched
    split at fetched
    · rename_i e found
      cases fetched
      cases found.symm.trans missing
    · rename_i absent
      split at fetched
      · cases fetched
        rw [AList.lookup_insert] at missing
        cases missing
      · rename_i nothing
        rw [readLayers, read_of_entries_none (c := top.onto _) absent]
        exact nothing

theorem Holds.entry_fetch (holds : s.Holds m) (nonempty : s.layers ≠ []) (k : κ) :
    ((s.fetch k).entry k).bind CacheEntry.value = m k := by
  have length : (s.fetch k).layers.length = s.layers.length := length_fetchLayers k
  unfold CacheStack.entry
  cases fetched : (s.fetch k).layers with
  | nil =>
    rw [fetched] at length
    exact absurd (length_eq_zero_iff.1 length.symm) nonempty
  | cons layer rest =>
    rw [head?_cons, Option.bind_some]
    cases found : layer.lookup k with
    | none =>
      rw [← holds.read]
      exact (read_of_lookup_none fetched found).symm
    | some e =>
      have reads := (holds.fetch k).1.read
      rw [CacheStack.read, fetched] at reads
      rw [← reads, readLayers, read_of_entries_some (c := layer.onto _) found]
      rfl

theorem Holds.remove (holds : s.Holds m) (nonempty : s.layers ≠ []) (k : κ) :
    (s.remove k).1.Holds (update m k none) ∧
      (∀ v, m k = some v → (s.remove k).2 = some (some v)) ∧
      (s.remove k).1.layers.length = s.layers.length := by
  have length : (s.fetch k).layers.length = s.layers.length := length_fetchLayers k
  have after := (holds.fetch k).1
  unfold CacheStack.remove
  cases fetched : (s.fetch k).layers with
  | nil =>
    rw [fetched] at length
    exact absurd (length_eq_zero_iff.1 length.symm) nonempty
  | cons layer rest =>
    obtain ⟨coherent, reads⟩ := after
    rw [fetched] at coherent length
    rw [CacheStack.read, fetched] at reads
    cases found : layer.lookup k with
    | none =>
      have empty : m k = none := by
        rw [← holds.read]
        exact read_of_lookup_none fetched found
      have same : update m k none = m := by rw [← empty, update_eq_self]
      simp only [found]
      refine ⟨?_, fun v used => ?_, ?_⟩
      · rw [same]
        exact (holds.fetch k).1
      · rw [empty] at used
        cases used
      · rw [fetched]
        exact length
    | some e =>
      have top : (layer.onto (readLayers s.base rest)).Holds m := ⟨coherent.1, reads⟩
      have value : m k = e.value := by
        rw [← top.read, read_of_entries_some (c := layer.onto _) found]
      simp only [found]
      refine ⟨holds_cons coherent.2 ?_, fun v used => by rw [← used, value], length⟩
      have cleared := top.clear found
      cases isFresh : e.fresh with
      | true =>
        rw [isFresh] at cleared
        rw [if_pos rfl, CacheLayer.onto_erase]
        exact cleared
      | false =>
        rw [isFresh] at cleared
        rw [if_neg Bool.false_ne_true, CacheLayer.onto_insert]
        exact cleared

theorem flushLayers_spec (depth : Nat) (coherent : CoherentLayers base layers) :
    ∃ layers' base', flushLayers depth layers base = some (layers', base') ∧
      CoherentLayers base' layers' ∧ readLayers base' layers' = readLayers base layers ∧
      layers'.length = layers.length ∧ ((∀ layer ∈ layers.take depth, layer = ∅) →
        ∀ layer ∈ layers'.take (depth + 1), layer = ∅) := by
  induction depth, layers, base using flushLayers.induct with
  | case1 depth base => exact ⟨[], base, by rw [flushLayers], coherent, rfl, rfl, by simp⟩
  | case2 layer base =>
    have written := CacheLayer.exists_writeAll coherent.1
    refine ⟨[∅], (layer.onto base).read, ?_, ⟨(WriteCache.holds_onBase _).coherent, trivial⟩, ?_, rfl,
      by simp⟩
    · rw [flushLayers]
      exact congrArg (Option.map _) written
    · exact (WriteCache.holds_onBase _).read
  | case3 layer parent rest base =>
    obtain ⟨parent', merged, coherentAfter, reads⟩ :=
      CacheLayer.exists_mergeAll coherent.2.1 coherent.1
    refine ⟨∅ :: parent' :: rest, base, ?_,
      ⟨(WriteCache.holds_onBase _).coherent, coherentAfter, coherent.2.2⟩, ?_, rfl, by simp⟩
    · rw [flushLayers, merged]
      rfl
    · exact (WriteCache.holds_onBase _).read.trans reads
  | case4 depth layer rest base ih =>
    obtain ⟨rest', base', flushed, coherentAfter, reads, length, emptied⟩ := ih coherent.2
    refine ⟨layer :: rest', base', ?_, ⟨?_, coherentAfter⟩, ?_, congrArg Nat.succ length,
      fun above other member => ?_⟩
    · rw [flushLayers, flushed]
      rfl
    · rw [reads]
      exact coherent.1
    · rw [readLayers, reads, readLayers]
    · rw [take_succ_cons, forall_mem_cons] at above
      rcases mem_cons.1 member with rfl | later
      · exact above.1
      · exact emptied above.2 other later

theorem Holds.flush (holds : s.Holds m) (depth : Nat) :
    ∃ s', s.flush depth = some s' ∧ s'.Holds m ∧ s'.layers.length = s.layers.length ∧
      ((∀ layer ∈ s.layers.take depth, layer = ∅) →
        ∀ layer ∈ s'.layers.take (depth + 1), layer = ∅) := by
  obtain ⟨layers, base, flushed, coherent, reads, length, emptied⟩ :=
    flushLayers_spec depth holds.coherent
  refine ⟨⟨layers, base⟩, ?_, ⟨coherent, reads.trans holds.read⟩, length, emptied⟩
  rw [CacheStack.flush, flushed]
  rfl

theorem Holds.flushAll (holds : s.Holds m) : ∃ s', s.flushAll = some s' ∧ s'.base = m := by
  have upTo (count : Nat) : ∃ s', (range count).foldlM CacheStack.flush s = some s' ∧
      s'.Holds m ∧ s'.layers.length = s.layers.length ∧
      ∀ layer ∈ s'.layers.take count, layer = ∅ := by
    induction count with
    | zero => exact ⟨s, rfl, holds, rfl, by simp⟩
    | succ count ih =>
      obtain ⟨middle, ran, middleHolds, middleLength, above⟩ := ih
      obtain ⟨after, flushed, afterHolds, afterLength, emptied⟩ := middleHolds.flush count
      refine ⟨after, ?_, afterHolds, afterLength.trans middleLength, emptied above⟩
      rw [range_succ, foldlM_append, ran]
      simpa using flushed
  obtain ⟨s', ran, after, length, empty⟩ := upTo s.layers.length
  refine ⟨s', ran, ?_⟩
  rw [← length, take_length] at empty
  rw [← after.read]
  exact (holds_of_empty empty).2.symm

end CacheStack

end Artax.Util
