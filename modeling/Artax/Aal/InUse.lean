import Artax.Aal.Mirror

/-!
# Which addresses are in use

Code set where there is code is not undone as it was, so a rollback need not restore the accounts. It
restores which addresses are in use, so the addresses known to be missing stay right.
-/

namespace Artax
open Executive Function List

namespace ArtaxState

def Tidy (s : ArtaxState) : Prop := ∀ a, s.nonExisting a = true → s.account a = none

theorem Tidy.fetch {s : ArtaxState} (tidy : s.Tidy) (b : Address) : (s.fetch b).Tidy := by
  intro a missing
  rw [account_fetch]
  unfold ArtaxState.fetch at missing
  split at missing
  · exact tidy a missing
  · rename_i uncached
    split at missing
    · exact tidy a missing
    · split at missing
      · rename_i known untried
        by_cases same : a = b
        · rw [same, account, uncached, untried]
          simp
        · simp only [Function.update_of_ne same] at missing
          exact tidy a missing
      · exact tidy a missing

def undoUse (used : Address → Bool) (change : Change) : Address → Bool :=
  update used change.address (decide (change ≠ .create change.address))

/-- A state was reached from a tidy one without losing an account, and undoing what was logged
since leaves the same addresses in use. -/
structure Grown (s t : ArtaxState) : Prop where
  tries : t.SameTries s
  coherent : t.Coherent
  tidy : t.Tidy
  used : ∀ a, s.addressInUse a = true → t.addressInUse a = true
  log : ∃ entries, t.changeLog = entries ++ s.changeLog ∧
    (∀ a, .create a ∈ entries → s.trie a = none) ∧
    entries.foldl undoUse t.addressInUse = s.addressInUse

variable {r s t : ArtaxState}

theorem Grown.refl (coherent : s.Coherent) (tidy : s.Tidy) : Grown s s :=
  ⟨⟨rfl, rfl, rfl⟩, coherent, tidy, fun _ => id, [], rfl, by simp, rfl⟩

theorem Grown.trans (first : Grown r s) (second : Grown s t) : Grown r t := by
  obtain ⟨early, earlyLog, earlyFree, earlyUse⟩ := first.log
  obtain ⟨late, lateLog, lateFree, lateUse⟩ := second.log
  refine ⟨second.tries.trans first.tries, second.coherent, second.tidy,
    fun a inUse => second.used a (first.used a inUse), late ++ early, ?_, fun a member => ?_, ?_⟩
  · rw [lateLog, earlyLog, append_assoc]
  · rcases mem_append.1 member with here | there
    · rw [← first.tries.trie]
      exact lateFree a here
    · exact earlyFree a there
  · rw [foldl_append, lateUse, earlyUse]

theorem Grown.congr {u : ArtaxState} (grown : Grown s t) (tries : u.SameTries t)
    (cache : u.cache = t.cache) (missing : u.nonExisting = t.nonExisting)
    (log : u.changeLog = t.changeLog) : Grown s u := by
  have accounts : ∀ a, u.account a = t.account a := fun a =>
    account_congr (by rw [cache]) (by rw [missing]) (by rw [tries.trie])
  have use : u.addressInUse = t.addressInUse := funext fun a => by
    rw [addressInUse, accounts, addressInUse]
  refine ⟨tries.trans grown.tries, fun a known => ?_, fun a known => ?_, fun a inUse => ?_, ?_⟩
  · rw [tries.trie]
    exact grown.coherent a (missing ▸ known)
  · rw [accounts]
    exact grown.tidy a (missing ▸ known)
  · rw [use]
    exact grown.used a inUse
  · rw [use, log]
    exact grown.log

/-! ## Rolling back -/

theorem addressInUse_undo {change : Change}
    (free : ∀ a, change = .create a → t.trie a = none) :
    (undo change t).addressInUse = undoUse t.addressInUse change := by
  have kept {x : Account} (cache : undoChange t.cache change =
      update t.cache change.address (some x)) (stays : change ≠ .create change.address) :
      (undo change t).addressInUse = undoUse t.addressInUse change := by
    have put : undo change t = t.setCache change.address (some x) := by rw [undo, cache, setCache]
    funext a
    rw [put, undoUse, decide_eq_true stays]
    by_cases same : a = change.address
    · rw [same, update_self, addressInUse, account_setCache_some]
      rfl
    · rw [update_of_ne same, addressInUse, account_setCache_of_ne same, addressInUse]
  cases change with
  | create b =>
    funext a
    rw [undo_create, undoUse]
    by_cases same : a = b
    · rw [same, addressInUse, account]
      simp [setCache, Change.address, free b rfl]
    · rw [addressInUse, account_setCache_of_ne same]
      simp [Change.address, same, addressInUse]
  | storage b key value => exact kept rfl (by simp)
  | balance b value => exact kept rfl (by simp)
  | nonce b => exact kept rfl (by simp)
  | newCode b => exact kept rfl (by simp)
  | touch b => exact kept rfl (by simp)

theorem addressInUse_undoAll (entries : List Change) (t : ArtaxState)
    (free : ∀ a, .create a ∈ entries → t.trie a = none) :
    (journal.undoAll entries t).addressInUse = entries.foldl undoUse t.addressInUse := by
  induction entries generalizing t with
  | nil => rfl
  | cons change rest ih =>
    have step : (undo change t).addressInUse = undoUse t.addressInUse change :=
      addressInUse_undo fun a same => free a (same ▸ mem_cons_self ..)
    exact (ih (undo change t) fun a member => free a (mem_cons_of_mem _ member)).trans
      (by rw [step, foldl_cons])

theorem Grown.rollback (grown : Grown s t) : Grown s (t.rollback s.savepoint) ∧
    (t.rollback s.savepoint).addressInUse = s.addressInUse := by
  obtain ⟨entries, log, free, undone⟩ := grown.log
  have use : (t.rollback s.savepoint).addressInUse = s.addressInUse := by
    rw [← undone, ← addressInUse_undoAll entries t fun a member => grown.tries.trie ▸ free a member,
      rollback_eq log]
    rfl
  have logged : (t.rollback s.savepoint).changeLog = s.changeLog := by rw [rollback_eq log]
  refine ⟨⟨⟨grown.tries.trie, grown.tries.stateUTXO, grown.tries.startNonce⟩, grown.coherent,
    fun a known => ?_, fun a inUse => ?_, [], logged, by simp,
    use⟩, use⟩
  · -- an address found missing since the savepoint was not in use there
    have unused : s.addressInUse a ≠ true := fun inUse => by
      have here := grown.used a inUse
      rw [addressInUse, grown.tidy a known] at here
      cases here
    rw [← use] at unused
    simpa [addressInUse] using unused
  · rw [use]
    exact inUse

/-! ## Writing and creating accounts -/

/-- Entries about one account that did not create it. -/
def About (a : Address) (entries : List Change) : Prop :=
  ∀ e ∈ entries, e.address = a ∧ e ≠ .create a

variable {a creator : Address} {value endowment : U256} {made : Executive.Creation}

theorem foldl_undoUse {entries : List Change} (entriesAbout : About a entries)
    {used : Address → Bool} (inUse : used a) : entries.foldl undoUse used = used := by
  induction entries with
  | nil => rfl
  | cons e rest ih =>
    obtain ⟨address, kept⟩ := entriesAbout e (mem_cons_self ..)
    have step : undoUse used e = used := by
      rw [undoUse, address, decide_eq_true kept, ← inUse, update_eq_self]
    rw [foldl_cons, step]
    exact ih fun e member => entriesAbout e (mem_cons_of_mem _ member)

theorem grown_write (coherent : s.Coherent) (tidy : s.Tidy) (inUse : s.addressInUse a)
    {y : Account} (entries : List Change) (cache : t.cache = update s.cache a (some y))
    (missing : t.nonExisting = s.nonExisting) (tries : t.SameTries s)
    (log : t.changeLog = entries ++ s.changeLog) (entriesAbout : About a entries) :
    Grown s t := by
  have accounts : ∀ b, t.account b = if b = a then some y else s.account b := by
    intro b
    rw [← account_putAccount s a b y]
    exact account_congr (by rw [cache]; rfl) (by rw [missing]; rfl) (by rw [tries.trie]; rfl)
  have use : t.addressInUse = s.addressInUse := by
    funext b
    rw [addressInUse, accounts]
    split
    · rename_i same
      rw [same, inUse]
      rfl
    · rfl
  refine ⟨tries, fun b known => ?_, fun b known => ?_, fun b => ?_, entries, log, ?_, ?_⟩
  · rw [tries.trie]
    exact coherent b (missing ▸ known)
  · have absent := tidy b (missing ▸ known)
    rw [accounts, absent]
    refine if_neg fun same => ?_
    rw [addressInUse, ← same, absent] at inUse
    cases inUse
  · rw [use]
    exact id
  · exact fun b member => absurd (by rw [← (entriesAbout _ member).1]; rfl)
      (entriesAbout _ member).2
  · rw [use]
    exact foldl_undoUse entriesAbout inUse

theorem grown_create (coherent : s.Coherent) (tidy : s.Tidy) (absent : s.account a = none)
    {y : Account} (entries : List Change) (cache : t.cache = update s.cache a (some y))
    (missing : t.nonExisting = update s.nonExisting a false) (tries : t.SameTries s)
    (log : t.changeLog = entries ++ .create a :: s.changeLog) (entriesAbout : About a entries) :
    Grown s t := by
  have accounts : ∀ b, t.account b = if b = a then some y else s.account b := by
    intro b
    rw [← account_createAccount s a b y]
    exact account_congr (by rw [cache]; rfl) (by rw [missing]; rfl) (by rw [tries.trie]; rfl)
  have use : t.addressInUse = update s.addressInUse a true := by
    funext b
    rw [addressInUse, accounts, update_apply]
    split <;> rfl
  have listed : ∀ b, t.nonExisting b → b ≠ a ∧ s.nonExisting b := by
    intro b known
    have other : b ≠ a := by
      rintro rfl
      rw [missing, update_self] at known
      cases known
    rw [missing, update_of_ne other] at known
    exact ⟨other, known⟩
  refine ⟨tries, fun b known => ?_, fun b known => ?_, fun b inUse => ?_,
    entries ++ [.create a], ?_, fun b member => ?_, ?_⟩
  · rw [tries.trie]
    exact coherent b (listed b known).2
  · rw [accounts, if_neg (listed b known).1]
    exact tidy b (listed b known).2
  · rw [use, update_apply, inUse, ite_self]
  · rw [log, append_assoc]
    rfl
  · rcases mem_append.1 member with here | last
    · exact absurd (by rw [← (entriesAbout _ here).1]; rfl) (entriesAbout _ here).2
    · cases mem_singleton.1 last
      exact (absent_of_account_none coherent absent).2
  · rw [foldl_append, use, foldl_undoUse entriesAbout (update_self ..)]
    have unused : s.addressInUse a = false := by rw [addressInUse, absent]; rfl
    simp [undoUse, Change.address, ← unused]

/-! ## The operations of a frame -/

section

variable (coherent : s.Coherent)
include coherent

section

variable (tidy : s.Tidy)
include tidy

theorem grown_addBalance (a : Address) (amount : U256) :
    Grown s (s.addBalance a amount).1 ∧
      (s.addBalance a amount).1.addressInUse (s.creditAddress a) := by
  refine ⟨?_, by rw [addressInUse, account_addBalance, if_pos rfl]; rfl⟩
  have balanceAbout : About (s.creditAddress a)
      (if amount = 0#256 then [] else [.balance (s.creditAddress a) amount]) := by
    intro e member
    split at member
    · cases member
    · cases mem_singleton.1 member
      exact ⟨rfl, by simp⟩
  have log := changeLog_addBalance s a amount
  have missing := nonExisting_addBalance s a amount
  have tries := (store_addBalance s a amount).tries
  rw [creditLog, touchLog] at log
  rw [missingAfterCredit] at missing
  cases found : s.account a with
  | some x =>
    rw [found] at log missing
    have here := creditAddress_of_some found
    refine grown_write (a := s.creditAddress a) coherent tidy (by rw [here, addressInUse, found]; rfl)
      _ (cache_addBalance s a amount) missing tries log fun e member => ?_
    rcases mem_append.1 member with balance | touch
    · exact balanceAbout e balance
    · simp only [] at touch
      split at touch
      · cases mem_singleton.1 touch
        exact ⟨here.symm, by simp⟩
      · cases touch
  | none =>
    rw [found] at log missing
    refine grown_create coherent tidy (account_creditAddress_of_none found) _
      (cache_addBalance s a amount) missing tries ?_ balanceAbout
    rw [log, append_assoc]
    rfl

theorem grown_subBalance (taken : s.subBalance a value = some t) : Grown s t := by
  obtain ⟨_, rfl⟩ | ⟨_, _, _, _, rfl⟩ := subBalance_eq_some_iff.1 taken
  · exact .refl coherent tidy
  · exact (grown_addBalance coherent tidy a _).1

theorem grown_transferBalance {source target resolved : Address}
    (moved : s.transferBalance source target value = some (t, resolved)) :
    Grown s t ∧ t.addressInUse resolved := by
  obtain ⟨u, taken, rfl, rfl⟩ := transferBalance_eq_some_iff.1 moved
  have first := grown_subBalance coherent tidy taken
  obtain ⟨second, there⟩ := grown_addBalance first.coherent first.tidy target value
  exact ⟨(first.trans second).congr ⟨rfl, rfl, rfl⟩ rfl rfl rfl, there⟩

theorem grown_incNonce (a : Address) :
    Grown s (s.incNonce a) := by
  unfold incNonce
  cases found : s.account a with
  | some x =>
    refine grown_write coherent tidy (by rw [addressInUse, found]; rfl) [.nonce a] rfl rfl ⟨rfl, rfl, rfl⟩ rfl
      fun e member => ?_
    cases mem_singleton.1 member
    exact ⟨rfl, by simp⟩
  | none =>
    refine grown_create coherent tidy found [] rfl rfl ⟨rfl, rfl, rfl⟩ rfl fun e member => ?_
    cases member

theorem grown_setStorage (inUse : s.addressInUse a) (key value : U256) :
    Grown s (s.setStorage a key value) := by
  refine grown_write coherent tidy inUse [.storage a key (s.storage a key)] rfl rfl
    ⟨rfl, rfl, rfl⟩ rfl fun e member => ?_
  cases mem_singleton.1 member
  exact ⟨rfl, by simp⟩

theorem grown_setNewCode (inUse : s.addressInUse a) (code : Bytes) :
    Grown s (s.setNewCode a code) := by
  refine grown_write coherent tidy inUse [.newCode a] rfl rfl ⟨rfl, rfl, rfl⟩ rfl
    fun e member => ?_
  cases mem_singleton.1 member
  exact ⟨rfl, by simp⟩

theorem grown_fetch (a : Address) : Grown s (s.fetch a) := by
  have use : (s.fetch a).addressInUse = s.addressInUse := funext fun b => by
    rw [addressInUse, account_fetch, addressInUse]
  refine ⟨(store_fetch s a).tries, coherent_fetch coherent a, tidy.fetch a, fun b inUse => ?_, [],
    changeLog_fetch s a, by simp, use⟩
  rw [use]
  exact inUse

theorem grown_noteUnused (a : Address) :
    Grown s (s.noteUnused a) := by
  unfold noteUnused
  split
  · exact .refl coherent tidy
  · exact (grown_fetch coherent tidy a).congr ⟨rfl, rfl, rfl⟩ rfl rfl rfl

theorem grown_kill (a : Address) : Grown s (s.kill a) := by
  have account : Grown s (s.killAccount a) := by
    unfold killAccount
    cases found : s.account a with
    | some x =>
      refine grown_write coherent tidy (by rw [addressInUse, found]; rfl) [] rfl rfl
        ⟨rfl, rfl, rfl⟩ rfl fun e member => ?_
      cases member
    | none => exact grown_fetch coherent tidy a
  unfold kill killVin
  split
  · exact account.congr ⟨rfl, rfl, rfl⟩ rfl rfl rfl
  · exact account

theorem grown_foldl_kill (addresses : List Address) :
    Grown s (addresses.foldl kill s) := by
  induction addresses generalizing s with
  | nil => exact .refl coherent tidy
  | cons a rest ih =>
    have step := grown_kill coherent tidy a
    exact step.trans (ih step.coherent step.tidy)

end

end

/-! ## Frames -/

variable {se : SealEngine} {env : EnvInfo}

theorem grown_call (coherent : s.Coherent) (tidy : s.Tidy) {entered : ArtaxState}
    {p : CallParameters} {gasCovers ext : Bool}
    (called : call se env p gasCovers s = some (entered, ext)) : Grown s entered := by
  unfold call at called
  simp only [] at called
  split at called
  · split at called
    · cases called
      exact (grown_addBalance coherent tidy _ _).1
    · cases called
      exact .refl coherent tidy
  · split at called
    · cases called
    · rename_i moved
      cases called
      have noted := grown_noteUnused coherent tidy p.receiveAddress
      exact noted.trans (grown_transferBalance noted.coherent noted.tidy moved).1

theorem addressInUse_of_hasCode (code : s.addressHasCode a) :
    s.addressInUse a := by
  obtain ⟨x, found, _⟩ := Active.of_hasCode code
  rw [addressInUse, found]
  rfl

theorem grown_openAccount (coherent : s.Coherent) (tidy : s.Tidy)
    (opened : openAccount se env creator endowment s = some made) :
    made.savepoint = (s.incNonce creator).savepoint ∧ Grown (s.incNonce creator) made.state ∧
      made.state.addressInUse made.newAddress := by
  have counted := grown_incNonce coherent tidy creator
  unfold openAccount at opened
  simp only [] at opened
  split at opened
  · cases opened
  · rename_i left newAddress moved
    obtain ⟨paid, there⟩ := grown_transferBalance counted.coherent counted.tidy moved
    have again := grown_incNonce paid.coherent paid.tidy newAddress
    cases opened
    refine ⟨rfl, ?_, ?_⟩
    · split
      · exact paid.trans again
      · exact paid
    · split
      · exact again.used _ there
      · exact there

theorem grown_executiveCreate (coherent : s.Coherent) (tidy : s.Tidy) {hasInit : Bool}
    (created : create se env creator endowment hasInit s = some made) :
    made.savepoint = (s.incNonce creator).savepoint ∧ Grown (s.incNonce creator) made.state ∧
      made.state.addressInUse made.newAddress := by
  unfold create at created
  split at created
  · cases created
  · rename_i first opened
    obtain ⟨height, grown, there⟩ := grown_openAccount coherent tidy opened
    cases created
    split
    · have later := grown_setNewCode grown.coherent grown.tidy there []
      exact ⟨height, grown.trans later, later.used _ there⟩
    · exact ⟨height, grown, there⟩

theorem run_grown (trace : Trace) {f : Frame} {s : ArtaxState} {sub : SubState} {out : Outcome}
    (coherent : s.Coherent) (tidy : s.Tidy) (here : s.addressInUse f.myAddress)
    (ran : run se env trace f s sub = some out) : Grown s out.state := by
  -- what is left of a frame runs on a state that has grown
  have resume {rest : Trace} {f : Frame} {s u : ArtaxState} {sub : SubState} {out : Outcome}
      (here : s.addressInUse f.myAddress) (step : Grown s u)
      (ih : ∀ {f : Frame} {s : ArtaxState} {sub : SubState} {out : Outcome}, s.Coherent → s.Tidy →
        s.addressInUse f.myAddress → run se env rest f s sub = some out → Grown s out.state)
      (ran : run se env rest f u sub = some out) : Grown s out.state :=
    step.trans (ih step.coherent step.tidy (step.used _ here) ran)
  induction trace generalizing f s sub out with
  | stop _ | exception _ =>
    cases ran
    exact .refl coherent tidy
  | suicide dest =>
    have noted := grown_noteUnused coherent tidy dest
    simp only [run] at ran
    split at ran
    · cases ran
    · rename_i moved
      cases ran
      exact noted.trans (grown_transferBalance noted.coherent noted.tidy moved).1
  | sstore key value rest ih =>
    exact resume here (grown_setStorage coherent tidy here key value) ih ran
  | log topics data rest ih => exact ih coherent tidy here ran
  | call op codeAddress value gasCovers inner rest ihInner ihRest =>
    simp only [run] at ran
    split at ran
    · split at ran
      · cases ran
      · rename_i entered called
        exact resume here (grown_call coherent tidy called) ihRest ran
      · rename_i entered called
        have enter := grown_call coherent tidy called
        have there : entered.addressInUse
            (f.callee (f.callParameters op codeAddress value)).myAddress := by
          apply enter.used
          rcases callee_cases f op codeAddress value with same | same
          · rw [same]
            exact here
          · rw [same]
            exact addressInUse_of_hasCode (hasCode_of_call called)
        split at ran
        · cases ran
        · rename_i left child output ended
          exact resume here (enter.trans (ihInner enter.coherent enter.tidy there ended)) ihRest ran
        · rename_i left e ended
          exact resume here
            (enter.trans (ihInner enter.coherent enter.tidy there ended)).rollback.1 ihRest ran
    · exact ihRest coherent tidy here ran
  | create hasInit inner rest ihInner ihRest =>
    simp only [run] at ran
    split at ran
    · split at ran
      · cases ran
      · rename_i made created
        have counted := grown_incNonce coherent tidy f.myAddress
        obtain ⟨height, opened, there⟩ := grown_executiveCreate coherent tidy created
        split at ran
        · split at ran
          · cases ran
          · rename_i left child output ended
            have inside := ihInner opened.coherent opened.tidy there ended
            have deployed := grown_setNewCode inside.coherent inside.tidy (inside.used _ there) output
            exact resume here (((counted.trans opened).trans inside).trans deployed) ihRest ran
          · rename_i left e ended
            have inside := ihInner opened.coherent opened.tidy there ended
            rw [height] at ran
            exact resume here (counted.trans (opened.trans inside).rollback.1) ihRest ran
        · exact resume here (counted.trans opened) ihRest ran
    · exact ihRest coherent tidy here ran

end ArtaxState
end Artax
