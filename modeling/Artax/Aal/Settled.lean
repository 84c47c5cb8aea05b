import Artax.Aal.InUse

/-!
# From one execution to the next

The cache of addresses known to be missing is not cleared by a commit. It stays right because no
operation leaves an account at an address that is still listed there.
-/

namespace Artax.ArtaxState

variable {ctx : ExecutionContext} {env : EnvInfo} {tx : ArtaxTransaction} {s : ArtaxState} {a : Address}
  {ran : Executive.Ran}

section

variable (ctx : ExecutionContext) (env : EnvInfo) (tx : ArtaxTransaction)

theorem grown_prepare (coherent : s.Coherent) (tidy : s.Tidy) : Grown s (prepare ctx env tx s) :=
  (grown_addBalance coherent tidy tx.sender _).1.congr ⟨rfl, rfl, rfl⟩ rfl rfl rfl

theorem grown_finalizeState (coherent : ran.state.Coherent) (tidy : ran.state.Tidy) :
    Grown ran.state (Executive.finalizeState ctx env tx ran) := by
  have sender := (grown_addBalance coherent tidy tx.sender
    (Executive.finalGas ctx tx ran * tx.gasPrice)).1
  have author := (grown_addBalance sender.coherent sender.tidy env.author
    ((tx.gas - Executive.finalGas ctx tx ran) * tx.gasPrice)).1
  have paid := sender.trans author
  exact paid.trans (grown_foldl_kill paid.coherent paid.tidy ran.sub.suicides)

theorem grown_deletedState (coherent : ran.state.Coherent) (tidy : ran.state.Tidy) :
    Grown ran.state (deletedState ctx env tx ran) := by
  have final := grown_finalizeState ctx env tx coherent tidy
  exact final.trans (grown_foldl_kill final.coherent final.tidy _)

end

theorem idle_commitAll {d : ArtaxState} (coherent : d.Coherent) (tidy : d.Tidy)
    (alive : d.VinsAlive) (env : EnvInfo) : (d.commitAll env).reset.Idle := by
  rw [commitAll_eq]
  refine ⟨fun a (known : d.nonExisting a) => ?_, fun a => .inl rfl, nofun, fun a v held => ?_, rfl, rfl⟩
  · change (d.commitAll env).trie a = none
    rw [trie_commitAll coherent, tidy a known]
    exact coherent a known
  · change d.commitUTXO.stateUTXO a = some v at held
    rw [stateUTXO_commitUTXO alive] at held
    exact (Option.filter_eq_some_iff.1 held).2

end Artax.ArtaxState
