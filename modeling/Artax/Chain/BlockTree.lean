import Artax.Primitives.Transaction
import Artax.Util.ParentTree

/-!
# The tree of block headers

`mapBlockIndex`: the entries for all accepted headers, each but the genesis block with a predecessor
in the map, one below it and with less work.
-/

namespace Artax

open Function Util.ParentTree Option

/-- The fields of `CBlockIndex` that are set for good. -/
structure CBlockIndex where
  pprev : Option H256
  nHeight : Nat
  nChainWork : Nat
  nTime : UInt32
  deriving DecidableEq, Repr

/-- An entry is the genesis block's, or its predecessor is in the map. -/
inductive CBlockIndex.Linked (genesis : H256) (index : H256 → Option CBlockIndex) :
    H256 → CBlockIndex → Prop
  | genesis {n : CBlockIndex} (root : n.pprev = none) (height : n.nHeight = 0) :
      Linked genesis index genesis n
  | child {b p : H256} {n np : CBlockIndex} (prev : n.pprev = some p) (found : index p = some np)
      (height : n.nHeight = np.nHeight + 1) (work : np.nChainWork < n.nChainWork) :
      Linked genesis index b n

structure BlockTree where
  genesis : H256
  index : H256 → Option CBlockIndex
  known : List H256
  mem_known : ∀ b, b ∈ known ↔ (index b).isSome = true
  root : (index genesis).isSome = true
  linked : ∀ b n, index b = some n → n.Linked genesis index b

namespace BlockTree

def pprev (t : BlockTree) (b : H256) : Option H256 := (t.index b).bind CBlockIndex.pprev

def nHeight (t : BlockTree) (b : H256) : Nat := ((t.index b).map CBlockIndex.nHeight).getD 0

def nChainWork (t : BlockTree) (b : H256) : Nat := ((t.index b).map CBlockIndex.nChainWork).getD 0

theorem entries_of_pprev {t : BlockTree} {b p : H256} (prev : t.pprev b = some p) :
    ∃ n np, t.index b = some n ∧ t.index p = some np ∧ n.nHeight = np.nHeight + 1 ∧
      np.nChainWork < n.nChainWork := by
  obtain ⟨n, found, named⟩ := bind_eq_some_iff.1 prev
  cases t.linked b n found with
  | genesis root => exact absurd (root.symm.trans named) nofun
  | @child _ _ _ np named' foundPrev height work =>
    obtain rfl := some.inj (named'.symm.trans named)
    exact ⟨n, np, found, foundPrev, height, work⟩

variable (t : BlockTree)

def links : Util.ParentTree H256 where
  parent := t.pprev
  height := t.nHeight
  height_parent := by
    intro b p parent
    obtain ⟨n, np, found, foundPrev, height, _⟩ := entries_of_pprev parent
    simp [nHeight, found, foundPrev, height]

abbrev Anc (t : BlockTree) (a b : H256) : Prop := t.links.Anc a b

/-- The ancestor at a height, along `pprev`. -/
def getAncestor (b : H256) (height : Nat) : Option H256 :=
  t.links.ancestorAt b height

def meet : List H256 → List H256 → Option H256
  | pa :: restA, pb :: restB => if pa = pb then some pa else meet restA restB
  | _, _ => none

def lowered (b : H256) (height : Nat) : Option H256 :=
  if height < t.nHeight b then t.getAncestor b height else some b

/-- `LastCommonAncestor`. -/
def lastCommonAncestor (pa pb : H256) : Option H256 := do
  let a ← t.lowered pa (t.nHeight pb)
  let b ← t.lowered pb (t.nHeight pa)
  meet (t.links.line a) (t.links.line b)

/-- `AddToBlockIndex`: a header that is not in the map gets an entry over its predecessor, with the work
of that and its own proof. -/
def addToBlockIndex (hash hashPrevBlock : H256) (nTime : UInt32) (proof : Nat)
    (positive : 0 < proof) : BlockTree :=
  match fresh : t.index hash, found : t.index hashPrevBlock with
  | none, some prev =>
    { genesis := t.genesis
      index := update t.index hash
        (some ⟨some hashPrevBlock, prev.nHeight + 1, prev.nChainWork + proof, nTime⟩)
      known := hash :: t.known
      mem_known := by
        intro b
        by_cases same : b = hash
        · simp [same]
        · simp [same, t.mem_known]
      root := by
        by_cases same : t.genesis = hash
        · simp [same]
        · simpa [same] using t.root
      linked := by
        -- an entry that was there is not the new one
        have kept : ∀ b n, t.index b = some n → update t.index hash
            (some ⟨some hashPrevBlock, prev.nHeight + 1, prev.nChainWork + proof, nTime⟩) b = some n := by
          intro b n there
          rw [update_of_ne, there]
          rintro rfl
          rw [fresh] at there
          cases there
        intro b n there
        by_cases same : b = hash
        · rw [same, update_self] at there
          cases there
          exact .child rfl (kept _ _ found) rfl (Nat.lt_add_of_pos_right positive)
        · rw [update_of_ne same] at there
          cases t.linked b n there with
          | genesis root height => exact .genesis root height
          | child prev found height work => exact .child prev (kept _ _ found) height work }
  | _, _ => t

variable {t : BlockTree} {a b p : H256}

theorem anc_of_pprev_none (root : t.pprev b = none) : t.Anc a b ↔ a = b :=
  anc_of_root root

section

variable (prev : t.pprev b = some p)
include prev

theorem anc_of_pprev : t.Anc a b ↔ a = b ∨ t.Anc a p :=
  anc_of_parent prev

theorem isSome_of_pprev : (t.index b).isSome ∧ (t.index p).isSome := by
  obtain ⟨_, _, found, foundPrev, _⟩ := entries_of_pprev prev
  simp [found, foundPrev]

theorem nHeight_of_pprev : t.nHeight b = t.nHeight p + 1 :=
  t.links.height_parent b p prev

end

theorem nHeight_le_of_anc (anc : t.Anc a b) : t.nHeight a ≤ t.nHeight b := anc.height_le

theorem nChainWork_lt_of_pprev (prev : t.pprev b = some p) : t.nChainWork p < t.nChainWork b := by
  obtain ⟨_, _, found, foundPrev, _, work⟩ := entries_of_pprev prev
  simpa [nChainWork, found, foundPrev] using work

theorem eq_genesis_of_pprev (known : (t.index b).isSome) (root : t.pprev b = none) :
    b = t.genesis := by
  obtain ⟨n, found⟩ := isSome_iff_exists.1 known
  cases t.linked b n found with
  | genesis => rfl
  | child prev => simp [pprev, found, prev] at root

theorem isSome_of_anc (anc : t.Anc a b) (known : (t.index b).isSome) :
    (t.index a).isSome := by
  induction b using t.links.induct with
  | _ b ih =>
    rcases anc_iff.1 anc with rfl | ⟨p, prev, anc⟩
    · exact known
    · exact ih p prev anc (isSome_of_pprev prev).2

theorem genesis_anc (known : (t.index b).isSome) : t.Anc t.genesis b := by
  induction b using t.links.induct with
  | _ b ih =>
    cases prev : t.pprev b with
    | none => rw [eq_genesis_of_pprev known prev]
    | some p => exact (ih p prev (isSome_of_pprev prev).2).trans (.parent prev)

theorem nChainWork_lt_of_anc (anc : t.Anc a b) (differs : a ≠ b) :
    t.nChainWork a < t.nChainWork b := by
  induction b using t.links.induct with
  | _ b ih =>
    rcases anc_iff.1 anc with rfl | ⟨p, prev, anc⟩
    · exact (differs rfl).elim
    · have step := nChainWork_lt_of_pprev prev
      by_cases same : a = p
      · exact same ▸ step
      · exact (ih p prev anc same).trans step

theorem nHeight_genesis : t.nHeight t.genesis = 0 := by
  obtain ⟨n, found⟩ := isSome_iff_exists.1 t.root
  cases t.linked t.genesis n found with
  | genesis _ height => simp [nHeight, found, height]
  | @child _ p _ np prev =>
    -- a genesis block with a predecessor would descend from itself
    have parent : t.pprev t.genesis = some p := by simp [pprev, found, prev]
    have below := nHeight_of_pprev parent
    have above := nHeight_le_of_anc (genesis_anc (isSome_of_pprev parent).2)
    omega

theorem pprev_genesis : t.pprev t.genesis = none :=
  parent_of_height_zero (T := t.links) nHeight_genesis

theorem exists_meet (knownA : (t.index a).isSome) (knownB : (t.index b).isSome)
    (height : t.nHeight a = t.nHeight b) :
    ∃ f, meet (t.links.line a) (t.links.line b) = some f ∧ t.Anc f a ∧ t.Anc f b ∧
      ∀ x, t.Anc x a → t.Anc x b → t.Anc x f := by
  induction a using t.links.induct generalizing b with
  | _ a ih =>
    rw [line_eq a, line_eq b, meet]
    split
    · rename_i same
      exact ⟨a, rfl, .refl _, same ▸ .refl _, fun x anc _ => anc⟩
    · rename_i differs
      cases parentA : t.links.parent a with
      | none =>
        obtain rfl := eq_genesis_of_pprev knownA parentA
        rw [nHeight_genesis] at height
        exact (differs (eq_genesis_of_pprev knownB
          (parent_of_height_zero (T := t.links) height.symm)).symm).elim
      | some pa =>
        have heightA := nHeight_of_pprev parentA
        cases parentB : t.links.parent b with
        | none =>
          obtain rfl := eq_genesis_of_pprev knownB parentB
          rw [nHeight_genesis] at height
          omega
        | some pb =>
          have heightB := nHeight_of_pprev parentB
          obtain ⟨f, met, ancA, ancB, last⟩ :=
            ih pa parentA (isSome_of_pprev parentA).2 (isSome_of_pprev parentB).2 (by omega)
          refine ⟨f, met, ancA.trans (.parent parentA), ancB.trans (.parent parentB), ?_⟩
          intro x ancXA ancXB
          rcases (anc_of_parent parentA).1 ancXA with rfl | ancXA
          · exact (differs (ancXB.eq_of_height height.ge)).elim
          · rcases (anc_of_parent parentB).1 ancXB with rfl | ancXB
            · have := nHeight_le_of_anc ancXA
              omega
            · exact last x ancXA ancXB

theorem exists_getAncestor {height : Nat} (known : (t.index b).isSome)
    (le : height ≤ t.nHeight b) : ∃ a, t.getAncestor b height = some a ∧ t.Anc a b ∧ t.nHeight a = height := by
  induction b using t.links.induct with
  | _ b ih =>
    by_cases here : t.nHeight b = height
    · exact ⟨b, ancestorAt_eq_some.2 ⟨.refl b, here⟩, .refl b, here⟩
    · cases parent : t.pprev b with
      | none =>
        obtain rfl := eq_genesis_of_pprev known parent
        rw [nHeight_genesis] at le here
        omega
      | some p =>
        have heightB := nHeight_of_pprev parent
        obtain ⟨a, _, anc, height⟩ := ih p parent (isSome_of_pprev parent).2 (by omega)
        have anc := anc.trans (.parent parent)
        exact ⟨a, ancestorAt_eq_some.2 ⟨anc, height⟩, anc, height⟩

theorem exists_lowered (known : (t.index b).isSome) (height : Nat) :
    ∃ a, t.lowered b height = some a ∧ t.Anc a b ∧ t.nHeight a = min (t.nHeight b) height := by
  unfold lowered
  split
  · obtain ⟨a, found, anc, same⟩ := exists_getAncestor known (by omega : height ≤ t.nHeight b)
    exact ⟨a, found, anc, by omega⟩
  · exact ⟨b, rfl, .refl b, by omega⟩

theorem lastCommonAncestor_spec (knownA : (t.index a).isSome)
    (knownB : (t.index b).isSome) :
    ∃ f, t.lastCommonAncestor a b = some f ∧ t.Anc f a ∧ t.Anc f b ∧
      ∀ x, t.Anc x a → t.Anc x b → t.Anc x f := by
  obtain ⟨a', foundA, ancA, heightA⟩ := exists_lowered knownA (t.nHeight b)
  obtain ⟨b', foundB, ancB, heightB⟩ := exists_lowered knownB (t.nHeight a)
  have same : t.nHeight a' = t.nHeight b' := by omega
  obtain ⟨f, met, ancFA, ancFB, last⟩ :=
    exists_meet (isSome_of_anc ancA knownA) (isSome_of_anc ancB knownB) same
  refine ⟨f, by simp [lastCommonAncestor, foundA, foundB, met], ancFA.trans ancA, ancFB.trans ancB,
    fun x ancXA ancXB => ?_⟩
  -- a common ancestor is not above the lower of the two blocks
  have lowA := nHeight_le_of_anc ancXA
  have lowB := nHeight_le_of_anc ancXB
  exact last x (ancXA.of_height_le ancA (show t.nHeight x ≤ t.nHeight a' by omega))
    (ancXB.of_height_le ancB (show t.nHeight x ≤ t.nHeight b' by omega))

structure Extends (t t' : BlockTree) : Prop where
  genesis : t'.genesis = t.genesis
  index : ∀ b n, t.index b = some n → t'.index b = some n

namespace Extends

variable {t' : BlockTree}

theorem refl (t : BlockTree) : t.Extends t := ⟨rfl, fun _ _ found => found⟩

theorem trans {t'' : BlockTree} (first : t.Extends t') (second : t'.Extends t'') : t.Extends t'' :=
  ⟨second.genesis.trans first.genesis, fun b n found => second.index b n (first.index b n found)⟩

section

variable (ext : t.Extends t')
include ext

section

variable (known : (t.index b).isSome = true)
include known

theorem index_eq : t'.index b = t.index b := by
  obtain ⟨n, found⟩ := isSome_iff_exists.1 known
  rw [found, ext.index b n found]

theorem isSome :
    (t'.index b).isSome := by
  rw [ext.index_eq known]
  exact known

theorem pprev : t'.pprev b = t.pprev b := by
  rw [BlockTree.pprev, ext.index_eq known, BlockTree.pprev]

theorem nHeight : t'.nHeight b = t.nHeight b := by
  rw [BlockTree.nHeight, ext.index_eq known, BlockTree.nHeight]

theorem nChainWork :
    t'.nChainWork b = t.nChainWork b := by
  rw [BlockTree.nChainWork, ext.index_eq known, BlockTree.nChainWork]

theorem anc : t'.Anc a b ↔ t.Anc a b := by
  induction b using t.links.induct with
  | _ b ih =>
    have same := ext.pprev known
    cases parent : t.pprev b with
    | none => rw [anc_of_pprev_none (same.trans parent), anc_of_pprev_none parent]
    | some p =>
      rw [anc_of_pprev (same.trans parent), anc_of_pprev parent, ih p parent (isSome_of_pprev parent).2]

theorem line : t'.links.line b = t.links.line b := by
  induction b using t.links.induct with
  | _ b ih =>
    have same := ext.pprev known
    cases parent : t.pprev b with
    | none => rw [line_of_root (same.trans parent), line_of_root (T := t.links) parent]
    | some p =>
      rw [line_of_parent (same.trans parent), line_of_parent (T := t.links) parent,
        ih p parent (isSome_of_pprev parent).2]

end

theorem anc_mono (anc : t.Anc a b) : t'.Anc a b := by
  by_cases known : (t.index b).isSome = true
  · exact (ext.anc known).2 anc
  · have root : t.pprev b = none := by
      rw [Bool.not_eq_true, isSome_eq_false_iff, isNone_iff_eq_none] at known
      rw [BlockTree.pprev, known, bind_none]
    rw [(anc_of_pprev_none root).1 anc]

end

end Extends

section Added

variable {hash prevHash : H256} {nTime : UInt32} {proof : Nat} (positive : 0 < proof)
  {prev : CBlockIndex}

theorem index_addToBlockIndex (fresh : t.index hash = none) (found : t.index prevHash = some prev) :
    (t.addToBlockIndex hash prevHash nTime proof positive).index = update t.index hash
      (some ⟨some prevHash, prev.nHeight + 1, prev.nChainWork + proof, nTime⟩) := by
  unfold addToBlockIndex
  split
  · rename_i isFound
    rw [found] at isFound
    cases isFound
    rfl
  · rename_i other
    exact (other prev fresh found).elim

theorem genesis_addToBlockIndex :
    (t.addToBlockIndex hash prevHash nTime proof positive).genesis = t.genesis := by
  unfold addToBlockIndex
  split <;> rfl

section

variable (fresh : t.index hash = none) (found : t.index prevHash = some prev)
include fresh found

theorem extends_addToBlockIndex :
    t.Extends (t.addToBlockIndex hash prevHash nTime proof positive) := by
  refine ⟨genesis_addToBlockIndex positive, fun b n there => ?_⟩
  rw [index_addToBlockIndex positive fresh found, update_of_ne, there]
  rintro rfl
  rw [fresh] at there
  cases there

theorem isSome_addToBlockIndex :
    ((t.addToBlockIndex hash prevHash nTime proof positive).index b).isSome ↔
      b = hash ∨ (t.index b).isSome := by
  rw [index_addToBlockIndex positive fresh found]
  by_cases same : b = hash
  · simp [same]
  · simp [same]

theorem pprev_addToBlockIndex :
    (t.addToBlockIndex hash prevHash nTime proof positive).pprev hash = some prevHash := by
  simp [pprev, index_addToBlockIndex positive fresh found]

end

end Added

end BlockTree
end Artax
