import Artax.Chain.CheckBlockIndex
import Artax.Chain.Pruning

/-!
# The skip list

`GetAncestor` follows `pskip` where that does not overshoot, and `BuildSkip` sets it by `GetAncestor`
of the predecessor. Whatever entries have it set, the walk ends where that over `pprev` ends.
-/

namespace Artax

open Function Option Util.ParentTree
open KernelIndex (getSkipHeight_lt)

namespace BlockTree

variable (t : BlockTree) (pskip : H256 → Option H256)

/-- The loop of `GetAncestor`, that has no result where its assertion fails. -/
def walk (height heightWalk : Nat) (pindexWalk : H256) : Option H256 :=
  if height < heightWalk then
    let heightSkip := getSkipHeight heightWalk
    let heightSkipPrev := getSkipHeight (heightWalk - 1)
    match (pskip pindexWalk).filter fun _ => heightSkip = height ∨ (height < heightSkip ∧
        ¬ ((heightSkipPrev : Int) < heightSkip - 2 ∧ height ≤ heightSkipPrev)) with
    | some skip => walk height heightSkip skip
    | none =>
      match t.pprev pindexWalk with
      | none => none
      | some prev => walk height (heightWalk - 1) prev
  else some pindexWalk
termination_by heightWalk
decreasing_by
  · exact getSkipHeight_lt (Nat.zero_lt_of_lt ‹_›)
  · omega

/-- `CBlockIndex::GetAncestor`. -/
def getAncestorBySkip (b : H256) (height : Int) : Option (Option H256) :=
  if (t.nHeight b : Int) < height ∨ height < 0 then some none
  else (t.walk pskip height.toNat (t.nHeight b) b).map some

/-- `CBlockIndex::BuildSkip`. -/
def buildSkip (b : H256) : Option (H256 → Option H256) :=
  match t.pprev b with
  | none => some pskip
  | some prev => (t.getAncestorBySkip pskip prev (getSkipHeight (t.nHeight b))).map (update pskip b)

/-- The skip entries that calls of `BuildSkip` leave while a tree grows. -/
inductive Skips : BlockTree → (H256 → Option H256) → Prop
  | null (t : BlockTree) : Skips t fun _ => none
  | grow {t t' : BlockTree} {pskip} (skips : Skips t pskip) (ext : t.Extends t') : Skips t' pskip
  | buildSkip {t : BlockTree} {pskip pskip'} (skips : Skips t pskip) {b : H256}
      (built : t.buildSkip pskip b = some pskip') : Skips t pskip'

variable {t pskip} {b : H256}

/-- Entries that are set lead to the ancestor at their height. -/
def Leads (t : BlockTree) (pskip : H256 → Option H256) : Prop :=
  ∀ b a, pskip b = some a → (t.index b).isSome ∧ t.Anc a b ∧ t.nHeight a = getSkipHeight (t.nHeight b)

theorem walk_spec (leads : t.Leads pskip) {height : Nat} (known : (t.index b).isSome)
    (le : height ≤ t.nHeight b) :
    ∃ a, t.walk pskip height (t.nHeight b) b = some a ∧ t.Anc a b ∧ t.nHeight a = height := by
  induction here : t.nHeight b using Nat.strongRecOn generalizing b with
  | _ heightWalk ih =>
    subst here
    rw [walk]
    split
    · rename_i lower
      dsimp only
      split
      · rename_i skip follows
        obtain ⟨found, follows⟩ := Option.filter_eq_some_iff.1 follows
        obtain ⟨_, anc, height'⟩ := leads b skip found
        have fits : height ≤ t.nHeight skip := by
          simp only [decide_eq_true_eq] at follows
          omega
        obtain ⟨a, ends, anc', same⟩ := ih (t.nHeight skip)
          (height' ▸ getSkipHeight_lt (Nat.zero_lt_of_lt lower)) (isSome_of_anc anc known) fits rfl
        exact ⟨a, height' ▸ ends, anc'.trans anc, same⟩
      · cases prev : t.pprev b with
        | none =>
          rw [eq_genesis_of_pprev known prev, nHeight_genesis] at lower
          omega
        | some p =>
          have below := nHeight_of_pprev prev
          obtain ⟨a, ends, anc, same⟩ := ih (t.nHeight p) (by omega) (isSome_of_pprev prev).2 (by omega) rfl
          refine ⟨a, ?_, anc.trans (.parent prev), same⟩
          rw [below]
          exact ends
    · exact ⟨b, rfl, .refl b, by omega⟩

/-- `BuildSkip` finds the entry that `CheckBlockIndex` looks at. -/
theorem buildSkip_eq {p : H256} (leads : t.Leads pskip) (prev : t.pprev b = some p) :
    t.buildSkip pskip b = some (update pskip b (t.pskip b)) := by
  obtain ⟨a, found, ancA, heightA⟩ := exists_pskip prev
  obtain ⟨x, walked, anc, height⟩ := walk_spec leads (isSome_of_pprev prev).2
    (heightA ▸ nHeight_le_of_anc ancA)
  obtain rfl : x = a := some.inj ((ancestorAt_eq_some.2 ⟨anc, height⟩).symm.trans
    (ancestorAt_eq_some.2 ⟨ancA, heightA⟩))
  have le := nHeight_le_of_anc ancA
  unfold buildSkip
  rw [prev]
  dsimp only
  rw [getAncestorBySkip, if_neg (by omega), Int.toNat_natCast, walked, found]
  rfl

theorem leads_of_skips (skips : Skips t pskip) : t.Leads pskip := by
  induction skips with
  | null =>
    intro b a found
    cases found
  | grow _ ext ih =>
    intro b a found
    obtain ⟨known, anc, height⟩ := ih b a found
    rw [ext.nHeight known, ext.nHeight (isSome_of_anc anc known)]
    exact ⟨ext.isSome known, ext.anc_mono anc, height⟩
  | @buildSkip t pskip pskip' _ b built ih =>
    cases prev : t.pprev b with
    | none =>
      rw [BlockTree.buildSkip, prev] at built
      cases built
      exact ih
    | some p =>
      cases (buildSkip_eq ih prev).symm.trans built
      intro c a found
      by_cases same : c = b
      · subst same
        obtain ⟨x, isSkip, anc, height⟩ := exists_pskip prev
        cases (update_self c (t.pskip c) pskip).symm.trans found |>.symm.trans isSkip
        exact ⟨(isSome_of_pprev prev).1, anc.trans (.parent prev), height⟩
      · rw [update_of_ne same] at found
        exact ih c a found

/-- The walk over skip entries neither fails nor returns anything but the entry that as many steps
over `pprev` reach as the heights differ. -/
theorem getAncestor_follows_pprev (skips : Skips t pskip) (known : (t.index b).isSome) (height : Int) :
    (0 ≤ height ∧ height ≤ t.nHeight b → ∃ a, t.links.up (t.nHeight b - height).toNat b = some a ∧
      t.getAncestorBySkip pskip b height = some (some a)) ∧
    (¬ (0 ≤ height ∧ height ≤ t.nHeight b) → t.getAncestorBySkip pskip b height = some none) := by
  unfold getAncestorBySkip
  refine ⟨fun ⟨low, high⟩ => ?_, fun outside => if_pos (by omega)⟩
  obtain ⟨a, walked, ⟨n, up⟩, same⟩ := walk_spec (leads_of_skips skips) known
    (show height.toNat ≤ t.nHeight b by omega)
  have heights : t.nHeight b = t.nHeight a + n := height_of_up up
  refine ⟨a, ?_, by rw [if_neg (by omega), walked]; rfl⟩
  rw [show (t.nHeight b - height).toNat = n by omega]
  exact up

theorem getAncestor_follows_pprev_four : ∃ pskip, Skips (chainTree 4) pskip ∧ pskip 4 = some 0 ∧
    (chainTree 4).getAncestorBySkip pskip 4 1 = some (some 1) := by
  obtain ⟨_, zero, found⟩ := (getAncestor_follows_pprev (.null (chainTree 4)) (b := 3) rfl 0).1 (by decide)
  cases zero
  have built : (chainTree 4).buildSkip (fun _ => none) 4 = some (update (fun _ => none) 4 (some 0)) := by
    change ((chainTree 4).getAncestorBySkip (fun _ => none) 3 0).map _ = _
    rw [found]
    rfl
  have skips : Skips (chainTree 4) (update (fun _ => none) 4 (some 0)) := .buildSkip (.null _) built
  obtain ⟨_, one, found⟩ := (getAncestor_follows_pprev skips (b := 4) rfl 1).1 (by decide)
  cases one
  exact ⟨_, skips, rfl, found⟩

end BlockTree
end Artax
