import Artax.Evm.Steps

/-!
# Runs as steps

The history of a run lists where it set code and which frames it rolled back, with what happened
inside of them apart. A run whose history a monitor allows is a sequence of `Steps` under that
monitor.
-/

namespace Artax

open Executive List

inductive Event where
  | deployed (state : ArtaxState) (address : Address) (code : Bytes)
  | reverted (saved left : ArtaxState)

/-- The events of a run, and those inside frames that were rolled back. -/
structure History where
  kept : List Event := []
  undone : List Event := []

namespace History

def append (early late : History) : History :=
  ⟨early.kept ++ late.kept, early.undone ++ late.undone⟩

def undo (inner : History) (saved left : ArtaxState) : History :=
  ⟨[.reverted saved left], inner.kept ++ inner.undone⟩

end History

def history (se : SealEngine) (env : EnvInfo) : Trace → Frame → ArtaxState → History
  | .stop _, _, _ | .exception _, _, _ | .suicide _, _, _ => {}
  | .sstore key value rest, f, s => history se env rest f (s.setStorage f.myAddress key value)
  | .log _ _ rest, f, s => history se env rest f s
  | .call op codeAddress value gasCovers inner rest, f, s =>
    let p := f.callParameters op codeAddress value
    if p.valueTransfer ≤ s.balance f.myAddress ∧ f.depth < 1024 then
      match call se env p gasCovers s with
      | none => {}
      | some (entered, false) => history se env rest f entered
      | some (entered, true) =>
        let frame := history se env inner (f.callee p) entered
        match run se env inner (f.callee p) entered {} with
        | none => frame
        | some (.done left _ _) => frame.append (history se env rest f left)
        | some (.threw left _) =>
          (frame.undo s left).append (history se env rest f (left.rollback s.savepoint))
    else history se env rest f s
  | .create hasInit inner rest, f, s =>
    if f.depth < 1024 then
      match openAccount se env f.myAddress 0#256 s with
      | none => {}
      | some made =>
        if hasInit then
          let callee : Frame := ⟨made.newAddress, f.myAddress, f.depth + 1⟩
          let frame := history se env inner callee made.state
          match run se env inner callee made.state {} with
          | none => frame
          | some (.done left _ output) =>
            (frame.append ⟨[.deployed left made.newAddress output], []⟩).append
              (history se env rest f (left.setNewCode made.newAddress output))
          | some (.threw left _) =>
            (frame.undo (s.incNonce f.myAddress) left).append
              (history se env rest f (left.rollback made.savepoint))
        else if made.state.addressHasCode made.newAddress then
          History.append ⟨[.deployed made.state made.newAddress []], []⟩
            (history se env rest f (made.state.setNewCode made.newAddress []))
        else history se env rest f made.state
    else history se env rest f s

/-- What a monitor assumes of an event. Setting code where there is code is never allowed. -/
def Monitor.Allows (m : Monitor) : Event → Prop
  | .deployed s a _ => s.addressHasCode a = false ∧ m.deploy s a
  | .reverted saved left => m.revert saved left

/-- What a monitor assumes of a history; inside rolled back frames it assumes no more than the
free monitor. -/
structure History.Allowed (h : History) (m : Monitor) : Prop where
  kept : ∀ e ∈ h.kept, m.Allows e
  undone : ∀ e ∈ h.undone, Monitor.free.Allows e

namespace History.Allowed

variable {m : Monitor}

theorem append_iff {early late : History} :
    (early.append late).Allowed m ↔ early.Allowed m ∧ late.Allowed m := by
  constructor
  · rintro ⟨kept, undone⟩
    simp only [History.append, mem_append, or_imp, forall_and] at kept undone
    exact ⟨⟨kept.1, undone.1⟩, ⟨kept.2, undone.2⟩⟩
  · rintro ⟨first, second⟩
    constructor <;> simp only [History.append, mem_append, or_imp, forall_and]
    · exact ⟨first.kept, second.kept⟩
    · exact ⟨first.undone, second.undone⟩

theorem undo_iff {inner : History} {saved left : ArtaxState} :
    (inner.undo saved left).Allowed m ↔ m.revert saved left ∧ inner.Allowed .free := by
  constructor
  · rintro ⟨kept, undone⟩
    simp only [History.undo, mem_append, or_imp, forall_and] at undone
    exact ⟨kept _ (mem_singleton_self _), undone.1, undone.2⟩
  · rintro ⟨reverts, frame⟩
    refine ⟨fun e member => ?_, fun e member => ?_⟩
    · rw [History.undo, mem_singleton] at member
      exact member ▸ reverts
    · rw [History.undo, mem_append] at member
      exact member.elim (frame.kept e) (frame.undone e)

theorem deployed_iff {s : ArtaxState} {a : Address} {code : Bytes} :
    (⟨[.deployed s a code], []⟩ : History).Allowed m ↔
      s.addressHasCode a = false ∧ m.deploy s a := by
  constructor
  · rintro ⟨kept, _⟩
    exact kept _ (mem_singleton_self _)
  · intro allowed
    refine ⟨fun e member => ?_, nofun⟩
    rw [mem_singleton] at member
    exact member ▸ allowed

end History.Allowed

open History.Allowed

namespace ArtaxState

/-! ## Entering a frame -/

variable {m : Monitor} {se : SealEngine} {env : EnvInfo}

variable {s entered t u : ArtaxState} {p : CallParameters} {gasCovers : Bool} {creator : Address}
  {made : Executive.Creation} {f : Frame} {inner rest : Trace} {h : History}

theorem call_steps {ext : Bool} (source : p.valueTransfer ≠ 0#256 → m.source p.senderAddress)
    (called : call se env p gasCovers s = some (entered, ext)) : Steps m s entered := by
  unfold call at called
  simp only [] at called
  split at called
  · split at called
    · cases called
      exact .single (.touch p.codeAddress)
    · cases called
      exact .refl s
  · split at called
    · cases called
    · rename_i moved
      cases called
      exact (Steps.single (.note p.receiveAddress)).tail (.transfer source moved)

theorem hasCode_of_call (called : call se env p gasCovers s = some (entered, true)) :
    s.addressHasCode p.codeAddress := by
  unfold call at called
  simp only [] at called
  split at called
  · cases called
  · split at called
    · cases called
    · simp only [Option.some.injEq, Prod.mk.injEq] at called
      exact (Bool.and_eq_true_iff.1 called.2).2

/-- Opening an account without endowment: the creator's nonce is counted before the savepoint, and
the new account is dirty. -/
theorem openAccount_steps (opened : openAccount se env creator 0#256 s = some made) :
    made.savepoint = (s.incNonce creator).savepoint ∧
      Steps m (s.incNonce creator) made.state ∧ made.state.Dirty made.newAddress := by
  unfold openAccount at opened
  simp only [] at opened
  split at opened
  · cases opened
  · rename_i t newAddress moved
    have dirty := dirty_of_transferBalance moved
    have transferred : Steps m (s.incNonce creator) t :=
      .single (.transfer (fun nonzero => absurd rfl nonzero) moved)
    cases opened
    refine ⟨rfl, ?_, ?_⟩
    · split
      · exact transferred.tail (.nonce dirty.active)
      · exact transferred
    · split
      · exact ((Step.nonce (m := m) dirty.active).revised newAddress).kept.2 dirty
      · exact dirty

theorem openAccount_steps_from (active : s.Active creator)
    (opened : openAccount se env creator 0#256 s = some made) :
    Steps m s made.state :=
  (Steps.single (.nonce active)).trans (openAccount_steps opened).2.1

theorem create_of_init (creator : Address) (endowment : U256) (s : ArtaxState) :
    create se env creator endowment true s =
      openAccount se env creator endowment s := by
  unfold create
  cases openAccount se env creator endowment s <;> rfl

theorem callee_cases (f : Frame) (op : CallOp) (codeAddress : Address) (value : U256) :
    (f.callee (f.callParameters op codeAddress value)).myAddress = f.myAddress ∨
      (f.callee (f.callParameters op codeAddress value)).myAddress = codeAddress := by
  cases op
  · exact .inr rfl
  · exact .inl rfl
  · exact .inl rfl

theorem sender_of_value (f : Frame) (op : CallOp) (codeAddress : Address) (value : U256)
    (positive : (f.callParameters op codeAddress value).valueTransfer ≠ 0#256) :
    (f.callParameters op codeAddress value).senderAddress = f.myAddress := by
  cases op
  · rfl
  · rfl
  · exact absurd rfl positive

/-! ## Runs -/

/-- What a frame can rely on: it runs at an active account that may send coins, as every account
with code may. -/
structure Ready (m : Monitor) (f : Frame) (s : ArtaxState) : Prop where
  lawful : m.Lawful
  coherent : s.Coherent
  active : s.Active f.myAddress
  source : m.source f.myAddress
  codes : ∀ a, s.code a ≠ [] → m.source a

theorem Ready.steps (ready : Ready m f s) (steps : Steps m s t) :
    Ready m f t where
  lawful := ready.lawful
  coherent := (steps.journaled ready.coherent).coherent
  active := (steps.kept ready.coherent _).1 ready.active
  source := ready.source
  codes := steps.codes ready.lawful ready.coherent ready.codes

theorem Ready.free (coherent : s.Coherent) (active : s.Active f.myAddress) : Ready .free f s :=
  ⟨Monitor.free_lawful, coherent, active, trivial, fun _ _ => trivial⟩

theorem Ready.callee (ready : Ready m f s) {op : CallOp} {codeAddress : Address} {value : U256}
    (called : call se env (f.callParameters op codeAddress value) gasCovers s =
      some (entered, true)) (enter : Steps m s entered) :
    Ready m (f.callee (f.callParameters op codeAddress value)) entered := by
  have after := ready.steps enter
  have hasCode : s.addressHasCode codeAddress := hasCode_of_call called
  rcases callee_cases f op codeAddress value with same | same
  · exact ⟨ready.lawful, after.coherent, same ▸ after.active, same ▸ ready.source, after.codes⟩
  · refine ⟨ready.lawful, after.coherent, ?_, ?_, after.codes⟩
    · rw [same]
      exact (enter.kept ready.coherent _).1 (.of_hasCode hasCode)
    · rw [same]
      apply ready.codes
      rw [addressHasCode_eq] at hasCode
      simpa using hasCode

/-- Steps that a history accounts for: from where it sets code, the rest are steps too. -/
structure Stepped (m : Monitor) (s : ArtaxState) (h : History) (t : ArtaxState) : Prop where
  steps : Steps m s t
  deployed : ∀ left a code, .deployed left a code ∈ h.kept →
    Steps m s left ∧ left.Dirty a ∧ Steps m (left.setNewCode a code) t

theorem Stepped.of_steps (steps : Steps m s t)
    (none : ∀ left a code, .deployed left a code ∉ h.kept) : Stepped m s h t :=
  ⟨steps, fun left a code member => absurd member (none left a code)⟩

theorem Stepped.undo {saved left : ArtaxState} {inner : History} (steps : Steps m s t) :
    Stepped m s (inner.undo saved left) t :=
  .of_steps steps fun _ _ _ member => by cases mem_singleton.1 member

theorem Stepped.deploy {s left : ArtaxState} {a : Address} (before : Stepped m s h left)
    (dirty : left.Dirty a) (allowed : left.addressHasCode a = false ∧ m.deploy left a)
    (code : Bytes) :
    Stepped m s (h.append ⟨[.deployed left a code], []⟩) (left.setNewCode a code) := by
  have step : Step m left (left.setNewCode a code) := .deploy dirty allowed.1 allowed.2 code
  refine ⟨before.steps.tail step, fun left' b code' member => ?_⟩
  rcases mem_append.1 member with earlier | here
  · obtain ⟨reached, dirty', later⟩ := before.deployed left' b code' earlier
    exact ⟨reached, dirty', later.tail step⟩
  · cases mem_singleton.1 here
    exact ⟨before.steps, dirty, .refl _⟩

theorem Stepped.append {early late : History} (first : Stepped m s early t)
    (second : Stepped m t late u) : Stepped m s (early.append late) u := by
  refine ⟨first.steps.trans second.steps, fun left a code member => ?_⟩
  rcases mem_append.1 member with earlier | later
  · obtain ⟨reached, dirty, rest⟩ := first.deployed left a code earlier
    exact ⟨reached, dirty, rest.trans second.steps⟩
  · obtain ⟨reached, dirty, rest⟩ := second.deployed left a code later
    exact ⟨first.steps.trans reached, dirty, rest⟩

theorem Stepped.after (steps : Steps m s t) (rest : Stepped m t h u) : Stepped m s h u :=
  ⟨steps.trans rest.steps, fun left a code member =>
    have ⟨reached, dirty, later⟩ := rest.deployed left a code member
    ⟨steps.trans reached, dirty, later⟩⟩

/-- Every run of a trace that a monitor allows is a sequence of steps under it. -/
def Stepwise (se : SealEngine) (env : EnvInfo) (trace : Trace) : Prop :=
  ∀ {m : Monitor} {f : Frame} {s : ArtaxState} {sub : SubState} {outcome : Outcome},
    Ready m f s → (history se env trace f s).Allowed m →
    run se env trace f s sub = some outcome →
    Stepped m s (history se env trace f s) outcome.state

theorem Stepwise.after (stepwise : Stepwise se env rest) {sub : SubState} {outcome : Outcome}
    (ready : Ready m f s) (steps : Steps m s t) (allowed : (history se env rest f t).Allowed m)
    (ran : run se env rest f t sub = some outcome) :
    Stepped m s (history se env rest f t) outcome.state :=
  .after steps (stepwise (ready.steps steps) allowed ran)

theorem stepwise_suicide (dest : Address) : Stepwise se env (.suicide dest) := by
  intro m f s sub outcome ready _ ran
  simp only [run] at ran
  split at ran
  · cases ran
  · rename_i moved
    cases ran
    exact .of_steps ((Steps.single (.note dest)).tail (.transfer (fun _ => ready.source) moved))
      fun _ _ _ => nofun

theorem stepwise_call (op : CallOp) (codeAddress : Address) (value : U256) (gasCovers : Bool)
    (ihInner : Stepwise se env inner) (ihRest : Stepwise se env rest) :
    Stepwise se env (.call op codeAddress value gasCovers inner rest) := by
  intro m f s sub outcome ready allowed ran
  simp only [run] at ran
  simp only [history] at allowed ⊢
  split at ran
  case isFalse stays =>
    rw [if_neg stays] at allowed ⊢
    exact ihRest ready allowed ran
  case isTrue enters =>
    rw [if_pos enters] at allowed ⊢
    cases called : call se env (f.callParameters op codeAddress value) gasCovers s with
    | none =>
      rw [called] at ran
      cases ran
    | some entry =>
      obtain ⟨entered, ext⟩ := entry
      rw [called] at ran allowed
      have enter : ∀ {m : Monitor}, m.source f.myAddress → Steps m s entered := fun source =>
        call_steps (fun positive => sender_of_value f op codeAddress value positive ▸ source) called
      cases ext with
      | false => exact ihRest.after ready (enter ready.source) allowed ran
      | true =>
        simp only [] at ran allowed ⊢
        cases left : run se env inner (f.callee (f.callParameters op codeAddress value)) entered {} with
        | none =>
          rw [left] at ran
          cases ran
        | some inside =>
          rw [left] at ran allowed
          cases inside with
          | done t child output =>
            obtain ⟨frame, later⟩ := append_iff.1 allowed
            have inside := Stepped.after (enter ready.source)
              (ihInner (ready.callee called (enter ready.source)) frame left)
            exact inside.append (ihRest (ready.steps inside.steps) later ran)
          | threw t e =>
            obtain ⟨undone, later⟩ := append_iff.1 allowed
            obtain ⟨reverts, frame⟩ := undo_iff.1 undone
            have free : Ready .free f s := .free ready.coherent ready.active
            have inside := ihInner (free.callee called (enter trivial)) frame left
            have back : Steps m s (t.rollback s.savepoint) :=
              .revert (.refl s) ((enter trivial).trans inside.steps) reverts
            exact (Stepped.undo back).append (ihRest (ready.steps back) later ran)

theorem stepwise_create (hasInit : Bool) (ihInner : Stepwise se env inner)
    (ihRest : Stepwise se env rest) : Stepwise se env (.create hasInit inner rest) := by
  intro m f s sub outcome ready allowed ran
  simp only [run] at ran
  simp only [history] at allowed ⊢
  split at ran
  case isFalse deep =>
    rw [if_neg deep] at allowed ⊢
    exact ihRest ready allowed ran
  case isTrue shallow =>
    rw [if_pos shallow] at allowed ⊢
    cases opened : openAccount se env f.myAddress 0#256 s with
    | none =>
      rw [create, opened] at ran
      cases ran
    | some made =>
      obtain ⟨savepoint, _, dirty⟩ := openAccount_steps (m := m) opened
      have enter : ∀ {m : Monitor}, Steps m s made.state :=
        openAccount_steps_from ready.active opened
      rw [opened] at allowed
      cases hasInit with
      | false =>
        simp only [Bool.false_eq_true, if_false] at ran allowed ⊢
        rw [create, opened] at ran
        by_cases occupied : made.state.addressHasCode made.newAddress = true
        · rw [if_pos occupied] at allowed
          obtain ⟨here, _⟩ := append_iff.1 allowed
          obtain ⟨noCode, _⟩ := deployed_iff.1 here
          rw [occupied] at noCode
          cases noCode
        · rw [if_neg occupied] at allowed ⊢
          simp only [occupied, Bool.not_false, Bool.true_and] at ran
          exact ihRest.after ready enter allowed ran
      | true =>
        rw [create_of_init, opened] at ran
        simp only [if_true] at ran allowed ⊢
        have entered : ∀ {m : Monitor}, Ready m f s → m.source made.newAddress →
            Ready m ⟨made.newAddress, f.myAddress, f.depth + 1⟩ made.state := by
          intro m ready source
          have after := ready.steps enter
          exact ⟨after.lawful, after.coherent, dirty.active, source, after.codes⟩
        cases left : run se env inner ⟨made.newAddress, f.myAddress, f.depth + 1⟩ made.state {} with
        | none =>
          rw [left] at ran
          cases ran
        | some inside =>
          rw [left] at ran allowed
          cases inside with
          | done t child output =>
            obtain ⟨frames, later⟩ := append_iff.1 allowed
            obtain ⟨frame, here⟩ := append_iff.1 frames
            have deploys := deployed_iff.1 here
            have ready' := entered ready (ready.lawful _ _ deploys.2)
            have inside := ihInner ready' frame left
            have kept := (inside.steps.kept ready'.coherent made.newAddress).2 dirty
            have deployed := (Stepped.after enter inside).deploy kept deploys output
            exact deployed.append (ihRest (ready.steps deployed.steps) later ran)
          | threw t e =>
            obtain ⟨undone, later⟩ := append_iff.1 allowed
            obtain ⟨reverts, frame⟩ := undo_iff.1 undone
            have free : Ready .free f s := .free ready.coherent ready.active
            have inside := ihInner (entered free trivial) frame left
            rw [savepoint] at later ran ⊢
            have back : Steps m s (t.rollback (s.incNonce f.myAddress).savepoint) :=
              .revert (.single (.nonce ready.active))
                ((openAccount_steps opened).2.1.trans inside.steps) reverts
            exact (Stepped.undo back).append (ihRest (ready.steps back) later ran)

theorem run_stepped (trace : Trace) : Stepwise se env trace := by
  induction trace with
  | stop _ | exception _ =>
    intro m f s sub outcome _ _ ran
    cases ran
    exact .of_steps (.refl s) fun _ _ _ => nofun
  | suicide dest => exact stepwise_suicide dest
  | sstore key value rest ih =>
    intro m f s sub outcome ready allowed ran
    exact ih.after ready (.single (.store ready.active key value)) allowed ran
  | log topics data rest ih =>
    intro m f s sub outcome ready allowed ran
    exact ih ready allowed ran
  | call op codeAddress value gasCovers inner rest ihInner ihRest =>
    exact stepwise_call op codeAddress value gasCovers ihInner ihRest
  | create hasInit inner rest ihInner ihRest => exact stepwise_create hasInit ihInner ihRest

end ArtaxState
end Artax
