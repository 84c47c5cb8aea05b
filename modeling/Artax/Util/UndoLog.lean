/-!
# Undo logs

A state changed in place with a log of entries that undo the changes, latest first. Undoing restores
a state up to a relation that is transitive and kept by undoing.
-/

namespace Artax.Util

/-- How entries of a log are undone, and up to what undoing restores a state. -/
structure UndoLog (σ ε : Type) where
  undo : ε → σ → σ
  Ready : ε → σ → Prop
  Restores : σ → σ → Prop
  trans : ∀ {r s t}, Restores r s → Restores s t → Restores r t
  mono : ∀ {e t s}, Restores t s → Ready e s → Ready e t ∧ Restores (undo e t) (undo e s)

namespace UndoLog

variable {σ ε : Type} (u : UndoLog σ ε)

def undoAll (log : List ε) (s : σ) : σ := log.foldl (fun s e => u.undo e s) s

/-- Every entry is ready when its turn comes. -/
def AllReady : List ε → σ → Prop
  | [], _ => True
  | e :: rest, s => u.Ready e s ∧ AllReady rest (u.undo e s)

@[simp] theorem undoAll_nil (s : σ) : u.undoAll [] s = s := rfl

@[simp] theorem undoAll_cons (e : ε) (log : List ε) (s : σ) :
    u.undoAll (e :: log) s = u.undoAll log (u.undo e s) := rfl

theorem undoAll_append (late early : List ε) (s : σ) :
    u.undoAll (late ++ early) s = u.undoAll early (u.undoAll late s) :=
  List.foldl_append

variable {late early log : List ε}

theorem allReady_append {s : σ} :
    u.AllReady (late ++ early) s ↔ u.AllReady late s ∧ u.AllReady early (u.undoAll late s) := by
  induction late generalizing s with
  | nil => simp [AllReady]
  | cons e rest ih => simp [AllReady, ih, and_assoc]

theorem undoAll_mono {t s : σ} (restored : u.Restores t s) (ready : u.AllReady log s) :
    u.AllReady log t ∧ u.Restores (u.undoAll log t) (u.undoAll log s) := by
  induction log generalizing t s with
  | nil => exact ⟨trivial, restored⟩
  | cons e rest ih =>
    have step := u.mono restored ready.1
    have tail := ih step.2 ready.2
    exact ⟨⟨step.1, tail.1⟩, tail.2⟩

/-- A state was reached from another by changes that a log undoes. -/
structure Logged (before after : σ) (log : List ε) : Prop where
  ready : u.AllReady log after
  restores : u.Restores (u.undoAll log after) before

variable {u}

theorem Logged.of_restores {before after other : σ} (logged : u.Logged before after log)
    (restored : u.Restores other after) :
    u.Logged before other log := by
  have undone := u.undoAll_mono restored logged.ready
  exact ⟨undone.1, u.trans undone.2 logged.restores⟩

theorem Logged.trans {first second third : σ} (one : u.Logged first second early)
    (two : u.Logged second third late) :
    u.Logged first third (late ++ early) := by
  have undone := one.of_restores two.restores
  refine ⟨u.allReady_append.2 ⟨two.ready, undone.ready⟩, ?_⟩
  rw [undoAll_append]
  exact undone.restores

end UndoLog
end Artax.Util
