/-!
# Programs whose effects survive errors

A program on a state that may refuse with an error or not return. What it did before an error stays
done. A program keeps a property that holds after it, on success or not, if it held before.
-/

namespace Artax.Util

open Option

/-- A program on a state that may fail, and that may also not return. -/
abbrev Effects (ε σ : Type) := ExceptT ε (StateT σ Option)

namespace Effects

variable {ε σ α β : Type} {P : σ → Prop}

def exec (m : Effects ε σ α) (s : σ) : Option (Except ε α × σ) := m.run.run s

def noReturn : Effects ε σ α := ExceptT.mk fun _ => none

def check (x : Except ε α) : Effects ε σ α := ExceptT.mk (pure x)

@[simp] theorem exec_pure (a : α) (s : σ) : (pure a : Effects ε σ α).exec s = some (.ok a, s) := rfl

@[simp] theorem exec_check (x : Except ε α) (s : σ) :
    (check x : Effects ε σ α).exec s = some (x, s) := rfl

@[simp] theorem exec_get (s : σ) : (get : Effects ε σ σ).exec s = some (.ok s, s) := rfl

@[simp] theorem exec_modify (f : σ → σ) (s : σ) :
    (modify f : Effects ε σ PUnit).exec s = some (.ok ⟨⟩, f s) := rfl

/-- What evaluating a run shows of its end. -/
theorem exists_ended {run : Option (α × σ)} {result : α} {view : σ → β} {seen : β}
    (ran : run.map (fun ended => (ended.1, view ended.2)) = some (result, seen)) :
    ∃ left, run = some (result, left) ∧ view left = seen := by
  obtain ⟨⟨_, left⟩, ended, same⟩ := map_eq_some_iff.1 ran
  obtain ⟨rfl, viewed⟩ := Prod.mk.inj same
  exact ⟨left, ended, viewed⟩

theorem exec_bind (m : Effects ε σ α) (next : α → Effects ε σ β) (s : σ) :
    (m >>= next).exec s = (m.exec s).bind fun ended =>
      match ended.1 with
      | .ok a => (next a).exec ended.2
      | .error e => some (.error e, ended.2) := by
  rw [exec, ExceptT.run_bind, StateT.run_bind]
  refine congrArg (bind _) (funext fun ended => ?_)
  obtain ⟨result, left⟩ := ended
  cases result <;> rfl

variable {m : Effects ε σ α} {next : α → Effects ε σ β} {x : Except ε β} {f : β → α → Effects ε σ β}
  {b : β}

theorem exec_bind_eq_some {s left : σ} {result : Except ε β} :
    (m >>= next).exec s = some (result, left) ↔
      (∃ a middle, m.exec s = some (.ok a, middle) ∧ (next a).exec middle = some (result, left)) ∨
      ∃ e, m.exec s = some (.error e, left) ∧ result = .error e := by
  rw [exec_bind]
  generalize m.exec s = ended
  cases ended with
  | none => simp
  | some ended =>
    obtain ⟨first, middle⟩ := ended
    cases first with
    | ok a =>
      simp only [bind_some, some.injEq, Prod.mk.injEq, reduceCtorEq, false_and,
        exists_false, or_false, Except.ok.injEq]
      constructor
      · exact fun later => ⟨a, middle, ⟨rfl, rfl⟩, later⟩
      · rintro ⟨_, _, ⟨rfl, rfl⟩, later⟩
        exact later
    | error e =>
      simp only [bind_some, some.injEq, Prod.mk.injEq, reduceCtorEq, false_and,
        exists_false, false_or, Except.error.injEq]
      constructor
      · rintro ⟨rfl, rfl⟩
        exact ⟨e, ⟨rfl, rfl⟩, rfl⟩
      · rintro ⟨_, ⟨rfl, rfl⟩, rfl⟩
        exact ⟨rfl, rfl⟩

theorem exec_bind_eq_ok {s left : σ} :
    (m >>= next).exec s = some (.ok b, left) ↔
      ∃ a middle, m.exec s = some (.ok a, middle) ∧ (next a).exec middle = some (.ok b, left) := by
  rw [exec_bind_eq_some]
  simp

theorem exec_check_eq_ok {x : Except ε α} {s left : σ} {a : α} :
    (check x : Effects ε σ α).exec s = some (.ok a, left) ↔ x = .ok a ∧ s = left := by
  rw [exec_check, some.injEq, Prod.mk.injEq]

theorem exec_map (f : α → β) (m : Effects ε σ α) (s : σ) :
    (f <$> m).exec s = (m.exec s).map fun ended => (ended.1.map f, ended.2) := by
  rw [map_eq_pure_bind, exec_bind, Option.map_eq_bind]
  refine congrArg (Option.bind _) (funext fun ended => ?_)
  obtain ⟨result, left⟩ := ended
  cases result <;> rfl

/-- A program keeps a property of the state, however it ends. -/
def Keeps (P : σ → Prop) (m : Effects ε σ α) : Prop :=
  ∀ ⦃s result left⦄, P s → m.exec s = some (result, left) → P left

/-- A program that fails leaves a state with a property. -/
def FailsKeeping (P : σ → Prop) (m : Effects ε σ α) : Prop :=
  ∀ ⦃s e left⦄, P s → m.exec s = some (.error e, left) → P left

theorem Keeps.failsKeeping (keeps : Keeps P m) : FailsKeeping P m :=
  fun _ _ _ before failed => keeps before failed

theorem keeps_pure (a : α) : Keeps P (pure a : Effects ε σ α) := by
  intro s result left before ended
  cases ended
  exact before

theorem keeps_throw (e : ε) : Keeps P (throw e : Effects ε σ α) := by
  intro s result left before ended
  cases ended
  exact before

theorem keeps_check (x : Except ε α) : Keeps P (check x : Effects ε σ α) := by
  intro s result left before ended
  cases ended
  exact before

theorem keeps_noReturn : Keeps P (noReturn : Effects ε σ α) := by
  intro s result left _ ended
  cases ended

theorem keeps_get : Keeps P (get : Effects ε σ σ) := by
  intro s result left before ended
  cases ended
  exact before

theorem keeps_modify {f : σ → σ} (step : ∀ s, P s → P (f s)) :
    Keeps P (modify f : Effects ε σ PUnit) := by
  intro s result left before ended
  cases ended
  exact step s before

theorem Keeps.bind (first : Keeps P m) (second : ∀ a, Keeps P (next a)) : Keeps P (m >>= next) := by
  intro s result left before ended
  rcases exec_bind_eq_some.1 ended with ⟨a, middle, now, later⟩ | ⟨e, now, _⟩
  · exact second a (first before now) later
  · exact first before now

theorem keeps_check_bind {x : Except ε α} (second : ∀ a, x = .ok a → Keeps P (next a)) :
    Keeps P (check x >>= next) := by
  intro s result left before ended
  rcases exec_bind_eq_some.1 ended with ⟨a, middle, now, later⟩ | ⟨e, now, _⟩
  · obtain ⟨rfl, rfl⟩ := Prod.mk.inj (some.inj now)
    exact second a rfl before later
  · obtain ⟨_, rfl⟩ := Prod.mk.inj (some.inj now)
    exact before

theorem Keeps.bind_failsKeeping (first : Keeps P m) (second : ∀ a, FailsKeeping P (next a)) :
    FailsKeeping P (m >>= next) := by
  intro s e left before ended
  rcases exec_bind_eq_some.1 ended with ⟨a, middle, now, later⟩ | ⟨e, now, _⟩
  · exact second a (first before now) later
  · exact first before now

theorem FailsKeeping.map (fails : FailsKeeping P m) (f : α → β) :
    FailsKeeping P (f <$> m) := by
  intro s e left before ended
  rw [exec_map] at ended
  obtain ⟨⟨result, middle⟩, now, ended⟩ := map_eq_some_iff.1 ended
  obtain ⟨failed, rfl⟩ := Prod.mk.inj ended
  cases result with
  | ok a => cases failed
  | error e => exact fails before now

theorem failsKeeping_modify_pure (f : σ → σ) (a : α) :
    FailsKeeping P (do modify f; pure a : Effects ε σ α) := by
  intro s e left _ ended
  cases ended

theorem Keeps.foldlM {items : List α} (round : ∀ b, ∀ item ∈ items, Keeps P (f b item)) (first : β) :
    Keeps P (items.foldlM f first) := by
  induction items generalizing first with
  | nil => exact keeps_pure first
  | cons item rest ih =>
    rw [List.foldlM_cons]
    exact (round first item List.mem_cons_self).bind
      (ih fun b other mem => round b other (List.mem_cons_of_mem item mem))

/-! ## Ending as a check does -/

/-- If a program returns, it ends as a check does: with the same error, or with results that agree. -/
def EndsAs (m : Effects ε σ α) (s : σ) (x : Except ε β) (agree : α → σ → β → Prop) : Prop :=
  (∀ ⦃a left⦄, m.exec s = some (.ok a, left) → ∃ b, x = .ok b ∧ agree a left b) ∧
    ∀ ⦃e left⦄, m.exec s = some (.error e, left) → x = .error e

variable {γ δ : Type} {s : σ} {agree : α → σ → β → Prop} {agree' : γ → σ → δ → Prop}

theorem endsAs_pure {a : α} (same : agree a s b) :
    EndsAs (pure a : Effects ε σ α) s (.ok b) agree := by
  constructor
  · intro a left ended
    cases ended
    exact ⟨b, rfl, same⟩
  · intro e left ended
    cases ended

theorem EndsAs.bind {next : α → Effects ε σ γ} {f : β → Except ε δ} (first : EndsAs m s x agree)
    (second : ∀ a left b, agree a left b → EndsAs (next a) left (f b) agree') :
    EndsAs (m >>= next) s (x >>= f) agree' := by
  constructor
  · intro c left ended
    obtain ⟨a, middle, now, later⟩ := exec_bind_eq_ok.1 ended
    obtain ⟨b, rfl, same⟩ := first.1 now
    exact (second a middle b same).1 later
  · intro e left ended
    rcases exec_bind_eq_some.1 ended with ⟨a, middle, now, later⟩ | ⟨e', now, same⟩
    · obtain ⟨b, rfl, same⟩ := first.1 now
      exact (second a middle b same).2 later
    · cases same
      rw [first.2 now]
      rfl

theorem EndsAs.congr {m' : Effects ε σ α} {s' : σ} (ends : EndsAs m s x agree)
    (same : m'.exec s' = m.exec s) : EndsAs m' s' x agree := by
  constructor
  · intro a left ended
    exact ends.1 (same.symm.trans ended)
  · intro e left ended
    exact ends.2 (same.symm.trans ended)

theorem EndsAs.mono {agree' : α → σ → β → Prop} (ends : EndsAs m s x agree)
    (weaker : ∀ a left b, agree a left b → agree' a left b) :
    EndsAs m s x agree' := by
  refine ⟨fun a left ended => ?_, ends.2⟩
  obtain ⟨b, found, same⟩ := ends.1 ended
  exact ⟨b, found, weaker a left b same⟩

theorem EndsAs.map (ends : EndsAs m s x agree) (f : α → γ) :
    EndsAs (f <$> m) s x fun c left b => ∃ a, c = f a ∧ agree a left b := by
  constructor
  · intro c left ended
    rw [map_eq_pure_bind] at ended
    obtain ⟨a, middle, now, later⟩ := exec_bind_eq_ok.1 ended
    cases later
    obtain ⟨b, found, same⟩ := ends.1 now
    exact ⟨b, found, a, rfl, same⟩
  · intro e left ended
    rw [map_eq_pure_bind] at ended
    rcases exec_bind_eq_some.1 ended with ⟨a, middle, now, later⟩ | ⟨e', now, same⟩
    · cases later
    · cases same
      exact ends.2 now

theorem endsAs_throw (e : ε) : EndsAs (throw e : Effects ε σ α) s (.error e) agree := by
  constructor
  · intro a left ended
    cases ended
  · intro e' left ended
    cases ended
    rfl

theorem endsAs_noReturn (x : Except ε β) : EndsAs (noReturn : Effects ε σ α) s x agree := by
  constructor
  · intro a left ended
    cases ended
  · intro e left ended
    cases ended

theorem endsAs_check_bind {x : Except ε α} {next : α → Effects ε σ γ} {f : α → Except ε δ}
    (second : ∀ a, x = .ok a → EndsAs (next a) s (f a) agree') :
    EndsAs (check x >>= next) s (x >>= f) agree' := by
  cases x with
  | ok a =>
    exact (second a rfl).congr rfl
  | error e => exact (endsAs_throw e).congr rfl

theorem endsAs_get_bind {next : σ → Effects ε σ α} (second : EndsAs (next s) s x agree) :
    EndsAs (get >>= next) s x agree :=
  second.congr rfl

theorem EndsAs.foldlM {g : γ → δ → Except ε γ} {of : α → δ} {agree : β → σ → γ → Prop}
    (round : ∀ b item c s, agree b s c → EndsAs (f b item) s (g c (of item)) agree) (items : List α)
    {c : γ} {s : σ} (start : agree b s c) :
    EndsAs (items.foldlM f b) s ((items.map of).foldlM g c) agree := by
  induction items generalizing b c s with
  | nil => exact endsAs_pure start
  | cons item rest ih =>
    rw [List.foldlM_cons, List.map_cons, List.foldlM_cons]
    exact (round b item c s start).bind fun _ _ _ same => ih same

end Effects
end Artax.Util
