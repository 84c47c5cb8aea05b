import Artax.Util.OrderedMap
import Artax.Primitives.Transaction

/-!
# Block download accounting

Which peer a block was requested from is recorded in `mapBlocksInFlight`, in the queue of the peer,
and in counters. An iterator is the number of its allocation. A call returns `none` on a failed
assertion or an iterator that points nowhere.
-/

namespace Artax

open Util (OrderedMap)
open Util.OrderedMap Option

abbrev NodeId := Int

structure QueuedBlock where
  hash : H256
  pindex : Option H256
  fValidatedHeaders : Bool

structure CNodeState where
  vBlocksInFlight : OrderedMap Nat QueuedBlock := .empty
  nDownloadingSince : Int := 0
  nStallingSince : Int := 0
  nBlocksInFlight : Int := 0
  nBlocksInFlightValidHeaders : Int := 0

structure Downloads where
  mapNodeState : OrderedMap NodeId CNodeState := .empty
  mapBlocksInFlight : OrderedMap H256 (NodeId × Nat) := .empty
  nPeersWithValidatedDownloads : Int := 0
  nodes : Nat := 0

namespace Downloads

/-- `PeerLogicValidation::InitializeNode`. -/
def initializeNode (nodeid : NodeId) (d : Downloads) : Downloads :=
  if d.mapNodeState.contains nodeid then d
  else { d with mapNodeState := d.mapNodeState.insert nodeid {} }

def received (d : Downloads) (now : Int) (hash : H256) (nodeid : NodeId) (it : Nat)
    (state : CNodeState) (entry : QueuedBlock) : Downloads :=
  let valid := state.nBlocksInFlightValidHeaders - if entry.fValidatedHeaders then 1 else 0
  { d with
    nPeersWithValidatedDownloads := d.nPeersWithValidatedDownloads -
      if valid = 0 ∧ entry.fValidatedHeaders then 1 else 0
    mapNodeState := d.mapNodeState.insert nodeid
      { nBlocksInFlightValidHeaders := valid
        nDownloadingSince :=
          -- the first block on the queue was received
          if state.vBlocksInFlight.keys.head? = some it then max state.nDownloadingSince now
          else state.nDownloadingSince
        vBlocksInFlight := state.vBlocksInFlight.erase it
        nBlocksInFlight := state.nBlocksInFlight - 1
        nStallingSince := 0 }
    mapBlocksInFlight := d.mapBlocksInFlight.erase hash }

/-- `MarkBlockAsReceived`. -/
def markBlockAsReceived (now : Int) (hash : H256) (d : Downloads) : Option (Downloads × Bool) :=
  match d.mapBlocksInFlight.find? hash with
  | none => some (d, false)
  | some (nodeid, it) => do
    let state ← d.mapNodeState.find? nodeid
    let entry ← state.vBlocksInFlight.find? it
    return (d.received now hash nodeid it state entry, true)

def requested (d : Downloads) (now : Int) (nodeid : NodeId) (state : CNodeState)
    (entry : QueuedBlock) : Downloads :=
  let valid := state.nBlocksInFlightValidHeaders + if entry.fValidatedHeaders then 1 else 0
  { nodes := d.nodes + 1
    nPeersWithValidatedDownloads := d.nPeersWithValidatedDownloads +
      if valid = 1 ∧ entry.pindex.isSome then 1 else 0
    mapNodeState := d.mapNodeState.insert nodeid { state with
      vBlocksInFlight := state.vBlocksInFlight.insert d.nodes entry
      nBlocksInFlight := state.nBlocksInFlight + 1
      nBlocksInFlightValidHeaders := valid
      nDownloadingSince :=
        if state.nBlocksInFlight + 1 = 1 then now else state.nDownloadingSince }
    mapBlocksInFlight := d.mapBlocksInFlight.insert entry.hash (nodeid, d.nodes) }

/-- `MarkBlockAsInFlight`. -/
def markBlockAsInFlight (now : Int) (nodeid : NodeId) (hash : H256) (pindex : Option H256)
    (d : Downloads) : Option (Downloads × Bool) := do
  let _ ← d.mapNodeState.find? nodeid
  if (d.mapBlocksInFlight.find? hash).map Prod.fst = some nodeid then
    return (d, false)
  let (d, _) ← d.markBlockAsReceived now hash
  let state ← d.mapNodeState.find? nodeid
  return (d.requested now nodeid state ⟨hash, pindex, pindex.isSome⟩, true)

def finalized (d : Downloads) (nodeid : NodeId) (state : CNodeState) : Downloads :=
  { d with
    mapBlocksInFlight :=
      (state.vBlocksInFlight.entries.map (·.2.hash)).foldl erase d.mapBlocksInFlight
    nPeersWithValidatedDownloads :=
      d.nPeersWithValidatedDownloads - if state.nBlocksInFlightValidHeaders ≠ 0 then 1 else 0
    mapNodeState := d.mapNodeState.erase nodeid }

/-- `PeerLogicValidation::FinalizeNode`. -/
def finalizeNode (nodeid : NodeId) (d : Downloads) : Option Downloads := do
  let state ← d.mapNodeState.find? nodeid
  let left := d.finalized nodeid state
  if 0 ≤ left.nPeersWithValidatedDownloads ∧ (left.mapNodeState.entries = [] →
      left.mapBlocksInFlight.entries.isEmpty ∧ left.nPeersWithValidatedDownloads = 0) then
    some left
  else none

end Downloads

inductive DownloadCall
  | initializeNode (nodeid : NodeId)
  | markBlockAsInFlight (now : Int) (nodeid : NodeId) (hash : H256) (pindex : Option H256)
  | markBlockAsReceived (now : Int) (hash : H256)
  | finalizeNode (nodeid : NodeId)

namespace Downloads

variable {d e : Downloads} {id : NodeId} {it : Nat} {state : CNodeState} {hash : H256}

def step (d : Downloads) : DownloadCall → Option Downloads
  | .initializeNode nodeid => some (d.initializeNode nodeid)
  | .markBlockAsInFlight now nodeid hash pindex =>
    (d.markBlockAsInFlight now nodeid hash pindex).map Prod.fst
  | .markBlockAsReceived now hash => (d.markBlockAsReceived now hash).map Prod.fst
  | .finalizeNode nodeid => d.finalizeNode nodeid

def Connected (d : Downloads) : DownloadCall → Prop
  | .markBlockAsInFlight _ nodeid _ _ | .finalizeNode nodeid => d.mapNodeState.contains nodeid
  | _ => True

def queued (d : Downloads) (id : NodeId) (it : Nat) : Option QueuedBlock :=
  (d.mapNodeState.find? id).bind (·.vBlocksInFlight.find? it)

def downloading (state : CNodeState) : Bool := 0 < state.nBlocksInFlightValidHeaders

structure Counted (state : CNodeState) : Prop where
  blocks : state.nBlocksInFlight = state.vBlocksInFlight.count fun _ => true
  valid : state.nBlocksInFlightValidHeaders = state.vBlocksInFlight.count (·.fValidatedHeaders)

/-- The map, the queues and the counters tell the same. -/
structure Accounted (d : Downloads) : Prop where
  mapped : ∀ hash id it, d.mapBlocksInFlight.find? hash = some (id, it) ↔
    ∃ entry, d.queued id it = some entry ∧ entry.hash = hash
  counted : ∀ id state, d.mapNodeState.find? id = some state → Counted state
  peers : d.nPeersWithValidatedDownloads = d.mapNodeState.count downloading
  allocated : ∀ id it entry, d.queued id it = some entry → it < d.nodes

theorem queued_insert (peers : d.mapNodeState = e.mapNodeState.insert id state) (other : NodeId) :
    d.queued other = if other = id then state.vBlocksInFlight.find? else e.queued other := by
  funext it
  rw [queued, peers, find?_insert]
  split <;> rfl

namespace Accounted

theorem counted_insert (acc : e.Accounted) (counted : Counted state) (other : NodeId)
    (found : CNodeState) (held : (e.mapNodeState.insert id state).find? other = some found) :
    Counted found := by
  rw [find?_insert] at held
  split at held
  · cases held
    exact counted
  · exact acc.counted other found held

section

variable (acc : d.Accounted)
include acc

theorem peers_insert (peer : d.mapNodeState.find? id = some state) (new : CNodeState) :
    ((d.mapNodeState.insert id new).count downloading : Int) =
      d.nPeersWithValidatedDownloads - (if downloading state then 1 else 0) +
        if downloading new then 1 else 0 := by
  have counts := d.mapNodeState.count_insert id new downloading
  rw [peer, any_some] at counts
  rw [acc.peers]
  split_ifs at counts ⊢ <;> omega

theorem initializeNode (id : NodeId) : (d.initializeNode id).Accounted := by
  unfold Downloads.initializeNode
  split
  · exact acc
  · rename_i fresh
    have absent : d.mapNodeState.find? id = none := by simpa [contains] using fresh
    have same : ∀ other, Downloads.queued
        { d with mapNodeState := d.mapNodeState.insert id {} } other = d.queued other := by
      intro other
      rw [queued_insert (e := d) rfl]
      split
      · rename_i here
        funext it
        simp [here, queued, absent]
      · rfl
    have counts := d.mapNodeState.count_insert id {} downloading
    rw [absent] at counts
    refine ⟨?_, fun _ _ => acc.counted_insert ⟨rfl, rfl⟩ _ _, ?_, ?_⟩
    · simpa only [same] using acc.mapped
    · exact acc.peers.trans (congrArg Nat.cast counts.symm)
    · simpa only [same] using acc.allocated

section

variable (peer : d.mapNodeState.find? id = some state)
include peer

theorem received {entry : QueuedBlock} (inQueue : state.vBlocksInFlight.find? it = some entry)
    (now : Int) :
    (d.received now entry.hash id it state entry).Accounted := by
  have here : d.queued id it = some entry := by rw [queued, peer, bind_some, inQueue]
  have unique := (acc.mapped entry.hash id it).2 ⟨entry, here, rfl⟩
  have counted := acc.counted id state peer
  have blocks := state.vBlocksInFlight.count_erase it fun _ => true
  have valid := state.vBlocksInFlight.count_erase it (·.fValidatedHeaders)
  rw [inQueue, any_some] at blocks valid
  have erased : ∀ other pos, (d.received now entry.hash id it state entry).queued other pos =
      if other = id ∧ pos = it then none else d.queued other pos := by
    intro other pos
    rw [queued_insert (e := d) rfl]
    by_cases same : other = id <;> by_cases place : pos = it <;> simp [same, place, queued, peer]
  refine ⟨fun h other pos => ?_, fun _ _ => acc.counted_insert ⟨?_, ?_⟩ _ _, ?_, ?_⟩
  · rw [erased, Downloads.received, find?_erase]
    by_cases gone : other = id ∧ pos = it
    · rw [if_pos gone, gone.1, gone.2]
      split
      · simp
      · rename_i differs
        rw [acc.mapped, here]
        simp [Ne.symm differs]
    · rw [if_neg gone, ← acc.mapped]
      split
      · rename_i same
        rw [same, unique]
        simpa [eq_comm] using gone
      · rfl
  · change state.nBlocksInFlight - 1 = (state.vBlocksInFlight.erase it).count fun _ => true
    rw [counted.blocks, ← blocks]
    simp
  · change state.nBlocksInFlightValidHeaders - _ =
      (state.vBlocksInFlight.erase it).count (·.fValidatedHeaders)
    rw [counted.valid, ← valid]
    split <;> simp
  · refine Eq.trans ?_ (acc.peers_insert peer _).symm
    have total := counted.valid
    rw [← valid] at total
    cases flag : entry.fValidatedHeaders <;>
      simp only [flag, Downloads.received, downloading, decide_eq_true_eq] at total ⊢ <;>
      split_ifs <;> simp at * <;> omega
  · intro other pos found held
    rw [erased] at held
    split at held
    · cases held
    · exact acc.allocated other pos found held

theorem requested {entry : QueuedBlock} (fresh : d.mapBlocksInFlight.find? entry.hash = none)
    (known : entry.fValidatedHeaders = entry.pindex.isSome) (now : Int) :
    (d.requested now id state entry).Accounted := by
  have unused : d.queued id d.nodes = none := by
    by_contra used
    obtain ⟨old, used⟩ := ne_none_iff_exists'.1 used
    exact Nat.lt_irrefl _ (acc.allocated id d.nodes old used)
  have counted := acc.counted id state peer
  have blocks := state.vBlocksInFlight.count_insert d.nodes entry fun _ => true
  have valid := state.vBlocksInFlight.count_insert d.nodes entry (·.fValidatedHeaders)
  have free : state.vBlocksInFlight.find? d.nodes = none := by
    rwa [queued, peer, bind_some] at unused
  rw [free, any_none, if_neg Bool.false_ne_true] at blocks valid
  have inserted : ∀ other pos, (d.requested now id state entry).queued other pos =
      if other = id ∧ pos = d.nodes then some entry else d.queued other pos := by
    intro other pos
    rw [queued_insert (e := d) rfl]
    by_cases same : other = id <;> by_cases place : pos = d.nodes <;>
      simp [same, place, queued, peer]
  refine ⟨fun h other pos => ?_, fun _ _ => acc.counted_insert ⟨?_, ?_⟩ _ _, ?_, ?_⟩
  · rw [inserted, Downloads.requested, find?_insert]
    by_cases new : other = id ∧ pos = d.nodes
    · rw [if_pos new, new.1, new.2]
      split
      · rename_i same
        simp [same]
      · rename_i differs
        rw [acc.mapped, unused]
        simp [Ne.symm differs]
    · rw [if_neg new, ← acc.mapped]
      split
      · rename_i same
        rw [same, fresh]
        simpa [eq_comm] using new
      · rfl
  · change state.nBlocksInFlight + 1 = _
    rw [counted.blocks]
    simpa using congrArg (Nat.cast : Nat → Int) blocks.symm
  · change state.nBlocksInFlightValidHeaders + _ = _
    rw [counted.valid]
    simpa using congrArg (Nat.cast : Nat → Int) valid.symm
  · refine Eq.trans ?_ (acc.peers_insert peer _).symm
    have total := counted.valid
    cases flag : entry.pindex.isSome <;> rw [flag] at known <;>
      simp only [known, flag, Downloads.requested, downloading, decide_eq_true_eq] at total ⊢ <;>
      split_ifs <;> simp at * <;> omega
  · intro other pos found held
    rw [inserted] at held
    change pos < d.nodes + 1
    split at held
    · rename_i new
      omega
    · exact Nat.lt_succ_of_lt (acc.allocated other pos found held)

theorem finalized :
    (d.finalized id state).Accounted := by
  have erased : ∀ other pos, (d.finalized id state).queued other pos =
      if other = id then none else d.queued other pos := by
    intro other pos
    rw [queued, Downloads.finalized, find?_erase]
    split <;> rfl
  have listed : ∀ h, h ∈ state.vBlocksInFlight.entries.map (·.2.hash) ↔
      ∃ it, d.mapBlocksInFlight.find? h = some (id, it) := by
    intro h
    simp only [acc.mapped, queued, peer, bind_some, List.mem_map, Prod.exists,
      mem_entries_iff]
  refine ⟨fun h other pos => ?_, fun other found held => ?_, ?_, fun other pos found held => ?_⟩
  · rw [erased, Downloads.finalized, find?_foldl_erase]
    by_cases mine : h ∈ state.vBlocksInFlight.entries.map (·.2.hash)
    · rw [if_pos mine]
      obtain ⟨it, place⟩ := (listed h).1 mine
      split
      · simp
      · rename_i differs
        rw [← acc.mapped, place]
        simp [Ne.symm differs]
    · rw [if_neg mine]
      split
      · rename_i same
        subst same
        simpa using fun place => mine ((listed h).2 ⟨pos, place⟩)
      · exact acc.mapped h other pos
  · rw [Downloads.finalized, find?_erase] at held
    split at held
    · cases held
    · exact acc.counted other found held
  · have counts := d.mapNodeState.count_erase id downloading
    have total := (acc.counted id state peer).valid
    have peers := acc.peers
    simp only [Downloads.finalized]
    rw [peer, any_some] at counts
    rw [downloading] at counts
    simp only [decide_eq_true_eq] at counts
    split_ifs at counts ⊢ <;> omega
  · rw [erased] at held
    split at held
    · cases held
    · exact acc.allocated other pos found held

end

theorem consistent : 0 ≤ d.nPeersWithValidatedDownloads ∧
    (d.mapNodeState.entries = [] →
      d.mapBlocksInFlight.entries.isEmpty ∧ d.nPeersWithValidatedDownloads = 0) := by
  rw [acc.peers]
  refine ⟨Int.natCast_nonneg _, fun last => ⟨?_, ?_⟩⟩
  · rw [List.isEmpty_iff, List.eq_nil_iff_forall_not_mem]
    rintro ⟨h, id, it⟩ member
    rw [mem_entries_iff, acc.mapped] at member
    obtain ⟨entry, held, -⟩ := member
    obtain ⟨state, peer, -⟩ := bind_eq_some_iff.1 held
    rw [← mem_entries_iff, last] at peer
    cases peer
  · rw [count, sumBy, last]
    rfl

theorem step {call : DownloadCall} (connected : d.Connected call) :
    ∃ e, d.step call = some e ∧ e.Accounted := by
  have received : ∀ now hash, ∃ e b, d.markBlockAsReceived now hash = some (e, b) ∧ e.Accounted ∧
      e.mapBlocksInFlight.find? hash = none ∧
      ∀ id, d.mapNodeState.contains id → e.mapNodeState.contains id := by
    intro now hash
    cases found : d.mapBlocksInFlight.find? hash with
    | none =>
      refine ⟨d, false, ?_, acc, found, fun _ => id⟩
      rw [markBlockAsReceived, found]
    | some place =>
      obtain ⟨id, it⟩ := place
      obtain ⟨entry, here, rfl⟩ := (acc.mapped hash id it).1 found
      obtain ⟨state, peer, inQueue⟩ := bind_eq_some_iff.1 here
      refine ⟨_, true, ?_, acc.received peer inQueue now, ?_, ?_⟩
      · simp only [markBlockAsReceived, found, peer, inQueue, bind_eq_bind, bind_some]
        rfl
      · simp [Downloads.received]
      · intro other there
        simp only [contains, Downloads.received, find?_insert]
        split
        · rfl
        · exact there
  cases call with
  | initializeNode id => exact ⟨_, rfl, acc.initializeNode id⟩
  | markBlockAsInFlight now id hash pindex =>
    obtain ⟨old, peer⟩ := isSome_iff_exists.1 connected
    obtain ⟨e, b, ran, after, fresh, kept⟩ := received now hash
    obtain ⟨state, still⟩ := isSome_iff_exists.1 (kept id connected)
    by_cases mine : (d.mapBlocksInFlight.find? hash).map Prod.fst = some id
    · refine ⟨d, ?_, acc⟩
      simp [Downloads.step, markBlockAsInFlight, peer, mine]
    · refine ⟨e.requested now id state ⟨hash, pindex, pindex.isSome⟩, ?_,
        after.requested still fresh rfl now⟩
      simp [Downloads.step, markBlockAsInFlight, peer, mine, ran, still]
  | markBlockAsReceived now hash =>
    obtain ⟨e, b, ran, after, -⟩ := received now hash
    exact ⟨e, by rw [Downloads.step, ran]; rfl, after⟩
  | finalizeNode id =>
    obtain ⟨state, peer⟩ := isSome_iff_exists.1 connected
    refine ⟨d.finalized id state, ?_, acc.finalized peer⟩
    simp only [Downloads.step, Downloads.finalizeNode, peer, bind_eq_bind, bind_some]
    exact if_pos (acc.finalized peer).consistent

end

end Accounted

/-- The states that calls about connected peers lead to. -/
inductive Reaches : Downloads → Prop
  | initial : Reaches {}
  | step {before after : Downloads} (call : DownloadCall) (reached : Reaches before)
    (connected : before.Connected call) (stepped : before.step call = some after) : Reaches after

theorem Reaches.accounted (reached : Reaches d) : d.Accounted := by
  induction reached with
  | initial => exact ⟨by simp [queued], by simp, rfl, by simp [queued]⟩
  | step call _ connected stepped ih =>
    obtain ⟨e, ran, after⟩ := ih.step connected
    rw [stepped] at ran
    cases ran
    exact after

/-- After any calls the map holds exactly the queue entries of the peers, the counters are exact,
and no assertion fails in the next call. -/
theorem downloads_consistent (reached : Reaches d) :
    (∀ hash id it, d.mapBlocksInFlight.find? hash = some (id, it) ↔
      ∃ entry, d.queued id it = some entry ∧ entry.hash = hash) ∧
    (∀ id state, d.mapNodeState.find? id = some state → Counted state) ∧
    d.nPeersWithValidatedDownloads = d.mapNodeState.count downloading ∧
    ∀ call, d.Connected call → (d.step call).isSome := by
  have acc := reached.accounted
  refine ⟨acc.mapped, acc.counted, acc.peers, fun call connected => ?_⟩
  obtain ⟨e, stepped, -⟩ := acc.step connected
  rw [stepped]
  rfl

theorem stolen_consistent : ∃ d : Downloads, d.mapBlocksInFlight.find? 7 = some (2, 1) ∧
    d.nPeersWithValidatedDownloads = d.mapNodeState.count downloading := by
  have joined := (Reaches.initial.step (.initializeNode 1) trivial rfl).step
    (.initializeNode 2) trivial rfl
  have stolen := (joined.step (.markBlockAsInFlight 0 1 7 (some 7)) rfl rfl).step
    (.markBlockAsInFlight 1 2 7 none) rfl rfl
  exact ⟨_, rfl, (downloads_consistent stolen).2.2.1⟩

end Downloads
end Artax
