import Artax.Script.ContractOutputs
import Artax.Validation.TxConverter

/-!
# Extraction is faithful on pushes

`Solver` admits opcodes other than pushes in the operand positions of a contract output. Where all
are pushes, decoding takes exactly its operands off the shared stack again; with another opcode it
never does.
-/

namespace Artax

open CScriptNum Op List Option

namespace CScript

def pushed (read : UInt8 × Bytes) : Option Bytes :=
  if read.1 ≤ pushData4 then some read.2
  else match Instruction.decode read.1 with
    | .number n => some (serialize n)
    | _ => none

def operands (script : CScript) : List Bytes :=
  (script.ops.takeWhile fun read => !isContractOp read.1).filterMap pushed

/-- Every opcode before the last one is a push. -/
def PushesOperands (script : CScript) : Prop := ∀ read ∈ script.ops.dropLast, (pushed read).isSome

instance (script : CScript) : Decidable (PushesOperands script) :=
  inferInstanceAs (Decidable (∀ _ ∈ _, _))

def isNumber (opcode : UInt8) : Bool :=
  match Instruction.decode opcode with
  | .number _ => true
  | _ => false

theorem small_of_push {opcode : UInt8} (push : opcode ≤ pushData4 ∨ isNumber opcode) :
    ¬ sixteen < opcode ∧ isDisabled opcode = false ∧ opcode ≠ 0xab ∧
      isContractOp opcode = false := by
  have all : ∀ n : Fin 256, (UInt8.ofNat n ≤ pushData4 ∨ isNumber (UInt8.ofNat n)) →
      ¬ sixteen < UInt8.ofNat n ∧ isDisabled (UInt8.ofNat n) = false ∧ UInt8.ofNat n ≠ 0xab ∧
        isContractOp (UInt8.ofNat n) = false := by
    decide +kernel
  have this := all ⟨opcode.toNat, opcode.toNat_lt⟩
  simp only [UInt8.ofNat_toNat] at this
  exact this push

theorem push_of_pushed {read : UInt8 × Bytes} {value : Bytes} (isPush : pushed read = some value) :
    read.1 ≤ pushData4 ∨ isNumber read.1 := by
  by_cases data : read.1 ≤ pushData4
  · exact .inl data
  · right
    rw [pushed, if_neg data] at isPush
    rw [isNumber]
    split at isPush
    · rfl
    · cases isPush

theorem contract_of_isContractOp {opcode : UInt8} (contract : isContractOp opcode) :
    sixteen < opcode ∧ isDisabled opcode = false ∧ opcode ≠ 0xab ∧ ¬ opcode ≤ pushData4 ∧
      Instruction.decode opcode = .contract := by
  simp only [isContractOp, Bool.or_eq_true, beq_iff_eq] at contract
  rcases contract with rfl | rfl <;> decide

end CScript

namespace Machine

open CScript (pushed)

variable {env : ScriptEnv} {m : Machine} {here rest : CScript}

variable {read : UInt8 × Bytes} {opcode : UInt8} {script : CScript}

theorem step_oversized (large : maxScriptElementSize < read.2.length) :
    step env read.1 read.2 here rest m = .halt (some .pushSize) m.stack := by
  simp only [step, if_pos large, fail]

theorem step_push {value : Bytes} (isPush : pushed read = some value) (noFlags : env.flags = {})
    (outside : m.vfExec = []) (fits : ¬ maxScriptElementSize < read.2.length)
    (room : ¬ maxStackSize < m.stack.length + 1 + m.altstack.length) :
    step env read.1 read.2 here rest m = .next { m with stack := value :: m.stack } := by
  obtain ⟨uncounted, enabled, separator, -⟩ := CScript.small_of_push (CScript.push_of_pushed isPush)
  have minimal : env.flags.minimalData = false := by rw [noFlags]
  have executed : m.vfExec.all id := by rw [outside]; rfl
  simp only [step, if_neg fits, uncounted, false_and, if_false, enabled, Bool.false_eq_true,
    separator, executed, true_and, true_or, if_true, minimal, Bool.false_and]
  by_cases data : read.1 ≤ pushData4
  · rw [pushed, if_pos data, some.injEq] at isPush
    simp only [if_pos data, isPush, withStack, limit, length_cons, if_neg room]
  · rw [pushed, if_neg data] at isPush
    split at isPush
    · rename_i n number
      cases isPush
      simp only [if_neg data, number, exec, withStack, limit, length_cons, if_neg room]
    · cases isPush

theorem step_contract (contract : CScript.isContractOp opcode) (outside : m.vfExec = [])
    (uncounted : m.nOpCount = 0) :
    step env opcode [] here rest m = .halt none (here :: m.stack) := by
  obtain ⟨counted, enabled, separator, noPush, decoded⟩ := CScript.contract_of_isContractOp contract
  have executed : m.vfExec.all id := by rw [outside]; rfl
  have small : ¬ maxScriptElementSize < ([] : Bytes).length := by decide
  have few : ¬ maxOpsPerScript < 0 + 1 := by decide
  simp only [step, if_neg small, counted, if_true, uncounted, few, and_false, if_false, enabled,
    Bool.false_eq_true, separator, false_and, executed, noPush, true_or, decoded, exec, limit]

theorem run_of_getOp {data : Bytes} {fuel : Nat}
    (next : CScript.getOp script = some (opcode, data, rest)) (enough : script.length ≤ fuel) :
    run env fuel script m =
      match step env opcode data script rest m with
      | .halt error stack => (error, stack)
      | .next m => run env (fuel - 1) rest m := by
  have shorter := CScript.getOp_length next
  obtain ⟨fuel, rfl⟩ : ∃ less, fuel = less + 1 := ⟨fuel - 1, by omega⟩
  have unread : script.isEmpty = false := by
    cases script with
    | nil => cases next
    | cons _ _ => rfl
  rw [run, unread, if_neg Bool.false_ne_true, next]
  rfl

/-- Evaluating pushes up to a contract opcode adds their values to the stack, unless an oversized
operand ends it before the last of them. -/
theorem run_pushes (contract : CScript.isContractOp opcode) (noFlags : env.flags = {})
    (outside : m.vfExec = []) (uncounted : m.nOpCount = 0) {pushes : List (UInt8 × Bytes)}
    (arePushes : ∀ read ∈ pushes, (pushed read).isSome)
    (room : m.stack.length + pushes.length + m.altstack.length ≤ maxStackSize) (fuel : Nat)
    (enough : script.length ≤ fuel) (reads : script.ops = pushes ++ [(opcode, [])]) :
    (∃ here, here.head? = some opcode ∧
      (run env fuel script m).2 = here :: ((pushes.filterMap pushed).reverse ++ m.stack)) ∨
    ∃ some, some.length < pushes.length ∧ (run env fuel script m).2 = some ++ m.stack := by
  -- induction on the pushes; each is one round, which leaves the rest of the script to be read
  induction pushes generalizing fuel script m with
  | nil =>
    obtain ⟨rest, next, -⟩ := CScript.getOp_of_ops_cons reads
    rw [run_of_getOp next enough, step_contract contract outside uncounted]
    exact .inl ⟨script, CScript.head_of_getOp next, rfl⟩
  | cons read pushes ih =>
    rw [forall_mem_cons] at arePushes
    obtain ⟨value, isPush⟩ := isSome_iff_exists.1 arePushes.1
    obtain ⟨rest, next, later⟩ := CScript.getOp_of_ops_cons reads
    have shorter := CScript.getOp_length next
    rw [length_cons] at room
    rw [run_of_getOp next enough]
    by_cases large : maxScriptElementSize < read.2.length
    · right
      exact ⟨[], Nat.succ_pos _, by rw [step_oversized large]; rfl⟩
    · rw [step_push isPush noFlags outside large (by omega)]
      rcases ih (m := { m with stack := value :: m.stack }) outside uncounted arePushes.2
        (by simp only [length_cons]; omega) (fuel - 1) (by omega) later with
        ⟨here, starts, full⟩ | ⟨some, fewer, part⟩
      · refine .inl ⟨here, starts, ?_⟩
        simp only [full, filterMap_cons, isPush, reverse_cons, append_assoc]
        rfl
      · refine .inr ⟨some ++ [value], by simpa using fewer, ?_⟩
        simp only [part, append_assoc]
        rfl

end Machine

theorem ofLittleEndian_of_vchToUint64 {vch : Bytes} {n : Nat}
    (parsed : vchToUint64 vch = some n) : n = CScript.ofLittleEndian vch := by
  rw [vchToUint64] at parsed
  split_ifs at parsed
  split at parsed
  · rename_i empty
    rw [getLast?_eq_none_iff] at empty
    cases parsed
    rw [empty]
    rfl
  · split_ifs at parsed
    exact (some.inj parsed).symm

theorem ofLittleEndian_lt (bytes : Bytes) :
    CScript.ofLittleEndian bytes < 256 ^ bytes.length := by
  rw [← CScript.ofBigEndian_reverse, ← length_reverse]
  exact ofBigEndian_lt _

theorem VersionVM.toRaw_fromRaw (raw : BitVec 32) : (VersionVM.fromRaw raw).toRaw = raw := by
  apply BitVec.eq_of_getLsbD_eq
  intro i bound
  simp only [VersionVM.fromRaw, VersionVM.toRaw, BitVec.getLsbD_append,
    BitVec.getLsbD_extractLsb']
  split_ifs with low middle high
  · simp [low]
  · have same : 2 + (i - 2) = i := by omega
    simp [middle, same]
  · have same : 8 + (i - 2 - 6) = i := by omega
    simp [high, same]
  · have same : 16 + (i - 2 - 6 - 8) = i := by omega
    have last : i - 2 - 6 - 8 < 16 := by omega
    simp [last, same]

/-- A virtual machine transaction is what a contract output says by itself: the kind of its opcode,
and the operands that the script pushes. -/
structure DecodedFrom (out : CTxOut × Nat) (t : ArtaxTransaction) : Prop where
  nVout : t.nVout = UInt32.ofNat out.2
  isCreation : t.isCreation = out.1.scriptPubKey.hasOpCreate
  operands : ∃ version gasLimit gasPrice,
    out.1.scriptPubKey.operands = [version, gasLimit, gasPrice, t.data] ++
      (if t.isCreation then [] else [Address.asBytes t.receiveAddress]) ∧
    t.version.toRaw.toNat = CScript.ofLittleEndian version ∧
    t.gas.toNat = CScript.ofLittleEndian gasLimit ∧
    t.gasPrice.toNat = CScript.ofLittleEndian gasPrice

namespace ArtaxTxConverter

variable {stack left : List Bytes} {params : EthTransactionParams} {found opcode : UInt8}
  {script : CScript} {pushes : List (UInt8 × Bytes)}

theorem parseOperands_eq_some {address : Address}
    (parsed : parseOperands address stack = some (params, left)) :
    ∃ price limit version, stack = params.code :: price :: limit :: version :: left ∧
      params.receiveAddress = address ∧
      params.version.toRaw.toNat = CScript.ofLittleEndian version ∧
      params.gasLimit.toNat = CScript.ofLittleEndian limit ∧
      params.gasPrice.toNat = CScript.ofLittleEndian price := by
  match stack, parsed with
  | code :: price :: limit :: version :: rest, parsed =>
    by_cases empty : code.isEmpty
    · simp [parseOperands, empty] at parsed
    cases readPrice : vchToUint64 price with
    | none => simp [parseOperands, readPrice] at parsed
    | some gasPrice =>
    cases readLimit : vchToUint64 limit with
    | none => simp [parseOperands, readLimit] at parsed
    | some gasLimit =>
    cases readVersion : vchToUint64 version with
    | none => simp [parseOperands, readPrice, readLimit, readVersion] at parsed
    | some raw =>
    simp only [parseOperands, if_neg empty, readPrice, readLimit, readVersion] at parsed
    split_ifs at parsed with large product wide
    cases parsed
    have word : raw < 2 ^ 32 := by
      rw [ofLittleEndian_of_vchToUint64 readVersion]
      calc CScript.ofLittleEndian version < 256 ^ version.length := ofLittleEndian_lt version
        _ ≤ 256 ^ 4 := Nat.pow_le_pow_right (by decide) (Nat.not_lt.1 wide)
        _ = 2 ^ 32 := by decide
    have priceFits : gasPrice < 2 ^ 256 := by omega
    have limitFits : gasLimit < 2 ^ 256 := by omega
    refine ⟨price, limit, version, rfl, rfl, ?_, ?_, ?_⟩
    · rw [VersionVM.toRaw_fromRaw, BitVec.toNat_ofNat, Nat.mod_eq_of_lt word]
      exact ofLittleEndian_of_vchToUint64 readVersion
    · rw [BitVec.toNat_ofNat, Nat.mod_eq_of_lt limitFits]
      exact ofLittleEndian_of_vchToUint64 readLimit
    · rw [BitVec.toNat_ofNat, Nat.mod_eq_of_lt priceFits]
      exact ofLittleEndian_of_vchToUint64 readPrice

variable {c : ArtaxTxConverter}

theorem parse_of_ne_call (create : found ≠ call) :
    parseEthTXParams found stack = parseOperands 0 stack := by
  unfold parseEthTXParams
  rw [if_neg create]

theorem parse_call (vecAddr : Bytes) (stack : List Bytes) :
    parseEthTXParams call (vecAddr :: stack) = parseOperands (Address.ofBytes vecAddr) stack :=
  rfl

theorem four_le_of_parse (parsed : parseEthTXParams found stack = some (params, left)) :
    4 ≤ stack.length := by
  by_cases call : found = call
  · subst call
    match stack, parsed with
    | vecAddr :: stack, parsed =>
      obtain ⟨_, _, _, rfl, -⟩ := parseOperands_eq_some parsed
      simp only [length_cons]
      omega
  · rw [parse_of_ne_call call] at parsed
    obtain ⟨_, _, _, rfl, -⟩ := parseOperands_eq_some parsed
    simp only [length_cons]
    omega

section

variable (contract : CScript.isContractOp opcode) (reads : script.ops = pushes ++ [(opcode, [])])
  (arePushes : ∀ read ∈ pushes, (CScript.pushed read).isSome)
include contract reads arePushes

theorem receiveStack_pushes (few : pushes.length ≤ 5)
    (received : c.receiveStack [] script = some (found, stack))
    (parsed : parseEthTXParams found stack = some (params, left)) :
    found = opcode ∧ stack = (pushes.filterMap CScript.pushed).reverse := by
  have enough := four_le_of_parse parsed
  have evaluated := Machine.run_pushes (m := { stack := [], codeHash := script }) contract
    (show c.script.execByteCode.flags = {} from rfl) rfl rfl arePushes
    (by simp only [length_nil, maxStackSize]; omega) script.length le_rfl reads
  rw [receiveStack, evalScript] at received
  by_cases long : maxScriptSize < script.length
  · rw [if_pos long] at received
    cases received
  rw [if_neg long] at received
  rcases evaluated with ⟨here, starts, full⟩ | ⟨some, fewer, part⟩
  · simp only [full, append_nil] at received
    split_ifs at received
    cases received
    rw [headD_eq_head?_getD, starts]
    exact ⟨rfl, rfl⟩
  · -- an oversized operand leaves too few elements to be parsed
    rw [part, append_nil] at received
    match some, received with
    | top :: others, received =>
      simp only at received
      split_ifs at received
      cases received
      rw [length_cons] at fewer
      omega

theorem operands_eq : script.operands = pushes.filterMap CScript.pushed := by
  have plain : ∀ read ∈ pushes, (!CScript.isContractOp read.1) := fun read member => by
    obtain ⟨value, isPush⟩ := isSome_iff_exists.1 (arePushes read member)
    simp [(CScript.small_of_push (CScript.push_of_pushed isPush)).2.2.2]
  rw [CScript.operands, reads, takeWhile_append_of_pos plain,
    takeWhile_cons_of_neg (by simp [contract]), append_nil]

end

theorem hasOpCreate_eq (reads : script.ops = pushes ++ [(opcode, [])])
    (arePushes : ∀ read ∈ pushes, (CScript.pushed read).isSome) :
    script.hasOpCreate = decide (opcode = create) := by
  have none : pushes.filter (fun read => read.1 == create) = [] := by
    rw [filter_eq_nil_iff]
    intro read member same
    obtain ⟨value, isPush⟩ := isSome_iff_exists.1 (arePushes read member)
    have plain := (CScript.small_of_push (CScript.push_of_pushed isPush)).2.2.2
    rw [beq_iff_eq.1 same] at plain
    exact absurd plain (by decide)
  rw [CScript.hasOpCreate, CScript.find, reads, filter_append, none, nil_append]
  by_cases create : opcode = create <;> simp [create]

/-- A contract output whose operand positions are pushes is decoded from its own operands, and
leaves nothing on the stack. -/
theorem decodedFrom_of_pushes {out : CTxOut × Nat} (shape : ContractShape out.1.scriptPubKey.ops)
    (arePushes : out.1.scriptPubKey.PushesOperands)
    (received : c.receiveStack [] out.1.scriptPubKey = some (found, stack))
    (parsed : parseEthTXParams found stack = some (params, left)) :
    DecodedFrom out (c.createEthTX found params out.1 out.2) ∧ left = [] := by
  obtain ⟨txout, i⟩ := out
  unfold CScript.PushesOperands at arePushes
  generalize reads : txout.scriptPubKey.ops = all at shape arePushes
  cases shape with
  | create operands four =>
    rw [dropLast_concat] at arePushes
    obtain ⟨rfl, rfl⟩ := receiveStack_pushes (by decide) reads arePushes (by omega) received parsed
    have own := operands_eq (by decide) reads arePushes
    have count := filterMap_length_eq_length.2 arePushes
    obtain ⟨price, limit, version, split, address, raw, gas, gasPrice⟩ :=
      parseOperands_eq_some ((parse_of_ne_call (by decide)).symm.trans parsed)
    rw [reverse_eq_iff] at split
    rw [split] at count own
    obtain rfl : left = [] := by
      rw [← length_eq_zero_iff]
      simp only [length_reverse, length_cons] at count
      omega
    refine ⟨⟨rfl, ?_, version, limit, price, ?_, raw, gas, gasPrice⟩, rfl⟩
    · rw [hasOpCreate_eq reads arePushes]
      simp [createEthTX, address, create, call]
    · rw [own]
      simp [createEthTX, address, create, call]
  | call operands four address twenty =>
    rw [dropLast_concat] at arePushes
    obtain ⟨rfl, rfl⟩ := receiveStack_pushes (by decide) reads arePushes
      (by simp only [length_append, length_singleton]; omega) received parsed
    have own := operands_eq (by decide) reads arePushes
    have count := filterMap_length_eq_length.2 arePushes
    -- the address is data, so it is pushed as it stands
    have member : address ∈ txout.scriptPubKey.ops := by rw [reads]; simp
    have push : address.1 ≤ pushData4 :=
      CScript.push_of_mem_ops member fun empty => by simp [empty] at twenty
    have pushed : CScript.pushed address = some address.2 := by rw [CScript.pushed, if_pos push]
    rw [filterMap_append, filterMap_cons, pushed, filterMap_nil] at own count parsed
    rw [reverse_concat, parse_call] at parsed
    obtain ⟨price, limit, version, split, receive, raw, gas, gasPrice⟩ :=
      parseOperands_eq_some parsed
    rw [reverse_eq_iff] at split
    rw [split] at count own
    obtain rfl : left = [] := by
      rw [← length_eq_zero_iff]
      simp only [length_append, length_reverse, length_cons] at count
      omega
    refine ⟨⟨rfl, ?_, version, limit, price, ?_, raw, gas, gasPrice⟩, rfl⟩
    · rw [hasOpCreate_eq reads arePushes]
      simp [createEthTX, create, call]
    · rw [own]
      simp [createEthTX, receive, Address.asBytes_ofBytes twenty]

def contractOutputs (outs : List (CTxOut × Nat)) : List (CTxOut × Nat) :=
  outs.filter fun out => out.1.scriptPubKey.isContract

theorem extract_decodes {outs : List (CTxOut × Nat)} {txs : List ArtaxTransaction}
    {etps : List EthTransactionParams}
    (shapes : ∀ out ∈ contractOutputs outs, ContractShape out.1.scriptPubKey.ops)
    (arePushes : ∀ out ∈ contractOutputs outs, out.1.scriptPubKey.PushesOperands)
    (extracted : c.extract outs [] = some (txs, etps)) :
    List.Forall₂ DecodedFrom (contractOutputs outs) txs := by
  -- induction on the outputs; the stack is empty before each of them
  induction outs generalizing txs etps with
  | nil =>
    cases extracted
    exact .nil
  | cons out outs ih =>
    obtain ⟨txout, i⟩ := out
    by_cases contract : txout.scriptPubKey.isContract = true
    · have kept : contractOutputs ((txout, i) :: outs) = (txout, i) :: contractOutputs outs :=
        filter_cons_of_pos contract
      rw [kept, forall_mem_cons] at shapes arePushes
      rw [kept]
      rw [CScript.isContract] at contract
      simp only [extract, if_pos contract] at extracted
      cases received : c.receiveStack [] txout.scriptPubKey with
      | none => simp [received] at extracted
      | some taken =>
      obtain ⟨found, stack⟩ := taken
      cases parsed : parseEthTXParams found stack with
      | none => simp [received, parsed] at extracted
      | some decoded =>
      obtain ⟨params, left⟩ := decoded
      cases later : c.extract outs left with
      | none => simp [received, parsed, later] at extracted
      | some others =>
      obtain ⟨txs, etps⟩ := others
      simp only [received, parsed, later, some.injEq, Prod.mk.injEq] at extracted
      obtain ⟨rfl, rfl⟩ := extracted
      obtain ⟨first, rfl⟩ := decodedFrom_of_pushes shapes.1 arePushes.1 received parsed
      exact .cons first (ih shapes.2 arePushes.2 later)
    · have skipped : contractOutputs ((txout, i) :: outs) = contractOutputs outs :=
        filter_cons_of_neg contract
      rw [skipped] at shapes arePushes ⊢
      rw [CScript.isContract] at contract
      simp only [extract, if_neg contract] at extracted
      exact ih shapes arePushes extracted

end ArtaxTxConverter

theorem isSome_of_filterMap_takeWhile {α β : Type} {p : α → Bool} {f : α → Option β} {l : List α}
    (all : l.length ≤ ((l.takeWhile p).filterMap f).length) : ∀ x ∈ l, (f x).isSome := by
  induction l with
  | nil => simp
  | cons x l ih =>
    by_cases passes : p x = true
    · rw [takeWhile_cons_of_pos passes, length_cons] at all
      cases value : f x with
      | none =>
        have short := length_filterMap_le f (l.takeWhile p)
        have prefixed := ( takeWhile_prefix p (l := l)).length_le
        rw [filterMap_cons_none value] at all
        omega
      | some y =>
        rw [filterMap_cons_some value, length_cons] at all
        rw [forall_mem_cons, value]
        exact ⟨rfl, ih (by omega)⟩
    · rw [takeWhile_cons_of_neg passes] at all
      simp at all

theorem length_takeWhile_lt {α : Type} {p : α → Bool} {l m : List α} {x : α} (member : x ∈ l)
    (stops : p x = false) : ((l ++ m).takeWhile p).length < l.length := by
  have short : (l.takeWhile p).length ≠ l.length := by
    intro same
    rw [← ( takeWhile_prefix p).eq_of_length same] at member
    exact absurd (mem_takeWhile_imp member) (by simp [stops])
  rw [takeWhile_append, if_neg short]
  exact lt_of_le_of_ne ( takeWhile_prefix p).length_le short

theorem takeWhile_concat {α : Type} {p : α → Bool} {l : List α} {x : α} (stops : ¬ p x) :
    (l ++ [x]).takeWhile p = l.takeWhile p := by
  induction l with
  | nil => simp [stops]
  | cons y l ih =>
    rw [cons_append, takeWhile_cons, takeWhile_cons, ih]

theorem pushesOperands_of_decodedFrom {out : CTxOut × Nat} {t : ArtaxTransaction}
    (shape : ContractShape out.1.scriptPubKey.ops) (decoded : DecodedFrom out t) :
    out.1.scriptPubKey.PushesOperands := by
  obtain ⟨version, gasLimit, gasPrice, operands, -⟩ := decoded.operands
  have count := congrArg length operands
  have creates : t.isCreation → ∃ read ∈ out.1.scriptPubKey.ops, read.1 = create :=
    fun creation => CScript.exists_of_find (decoded.isCreation.symm.trans creation)
  obtain ⟨txout, i⟩ := out
  unfold CScript.PushesOperands
  unfold CScript.operands at count
  have pushAddress : ∀ read ∈ txout.scriptPubKey.ops, read.2 ≠ [] →
      CScript.isContractOp read.1 = false := fun read member data => by
    by_contra contract
    exact CScript.not_push_of_isContractOp (by simpa using contract)
      (CScript.push_of_mem_ops member data)
  generalize txout.scriptPubKey.ops = all at shape count creates pushAddress
  cases shape with
  | create operands four =>
    rw [dropLast_concat]
    rw [takeWhile_concat (by decide)] at count
    refine isSome_of_filterMap_takeWhile (p := fun read => !CScript.isContractOp read.1) ?_
    rw [count, four]
    simp only [length_append, length_cons, length_nil]
    omega
  | call operands four address twenty =>
    rw [dropLast_concat]
    rw [takeWhile_concat (by decide)] at count
    cases creation : t.isCreation with
    | false =>
      refine isSome_of_filterMap_takeWhile (p := fun read => !CScript.isContractOp read.1) ?_
      rw [count, creation]
      simp [four]
    | true =>
      -- an `OP_CREATE` in an operand position would end the operands before it
      obtain ⟨read, member, create⟩ := creates creation
      rw [mem_append, mem_append] at member
      obtain (inside | isAddress) | isLast := member
      · have stops : (!CScript.isContractOp read.1) = false := by rw [create]; decide
        have short := length_takeWhile_lt (m := [address])
          (p := fun read => !CScript.isContractOp read.1) inside stops
        have fewer := length_filterMap_le CScript.pushed
          ((operands ++ [address]).takeWhile fun read => !CScript.isContractOp read.1)
        rw [count, creation] at fewer
        simp only [if_true, append_nil, length_cons, length_nil] at fewer
        omega
      · obtain rfl := mem_singleton.1 isAddress
        have plain := pushAddress read (by simp) fun empty => by simp [empty] at twenty
        rw [create] at plain
        exact absurd plain (by decide)
      · rw [mem_singleton.1 isLast] at create
        exact absurd create (by decide)

theorem exists_of_forall₂ {α β : Type} {R : α → β → Prop} {l : List α} {m : List β} {x : α}
    (related : List.Forall₂ R l m) (member : x ∈ l) : ∃ y, R x y := by
  induction related with
  | nil => cases member
  | cons first _ ih =>
    rcases mem_cons.1 member with rfl | later
    · exact ⟨_, first⟩
    · exact ih later

namespace ArtaxTxConverter

/-- A transaction that was accepted and extracted is decoded output by output, each from the operands
of its own script, exactly when all operand positions of its contract outputs are pushes. -/
theorem extraction_faithful_iff (c : ArtaxTxConverter) {weight : Nat} {duplicates : Bool}
    {txs : List ArtaxTransaction} {etps : List EthTransactionParams}
    (accepted : checkTransaction weight duplicates c.txBit = .ok ())
    (extracted : c.extractionArtaxTransactions = some (txs, etps)) :
    List.Forall₂ DecodedFrom (contractOutputs c.txBit.vout.zipIdx) txs ↔
      ∀ txout ∈ c.txBit.vout, txout.scriptPubKey.isContract → txout.scriptPubKey.PushesOperands := by
  have standard := (outputsChecked_of_checkTransaction accepted).standard
  have shapes : ∀ out ∈ contractOutputs c.txBit.vout.zipIdx,
      ContractShape out.1.scriptPubKey.ops := by
    intro out member
    rw [contractOutputs, mem_filter] at member
    exact contractShape_of_solver member.2
      (standard out.1 (fst_mem_of_mem_zipIdx member.1) member.2)
  constructor
  · intro decoded txout member contract
    obtain ⟨i, bound, rfl⟩ := mem_iff_getElem.1 member
    have isOutput : (c.txBit.vout[i], i) ∈ contractOutputs c.txBit.vout.zipIdx :=
      mem_filter.2 ⟨mk_mem_zipIdx_iff_getElem?.2 (getElem?_eq_getElem bound), contract⟩
    obtain ⟨t, own⟩ := exists_of_forall₂ decoded isOutput
    exact pushesOperands_of_decodedFrom (shapes _ isOutput) own
  · intro pushes
    refine extract_decodes shapes ?_ extracted
    intro out member
    rw [contractOutputs, mem_filter] at member
    exact pushes out.1 (fst_mem_of_mem_zipIdx member.1) member.2

def sample (vout : List CTxOut) : ArtaxTxConverter where
  txBit := { vin := [{ prevout := ⟨1, 0⟩, scriptSig := [] }], vout }
  sender := 1
  hash := 2
  script := .sample

def plainOutputs : ArtaxTxConverter :=
  sample [⟨0, CScript.pushData [4] ++ CScript.pushData [5] ++ CScript.pushData [6] ++
      CScript.pushData [7] ++ [create]⟩,
    ⟨0, CScript.pushData [4] ++ CScript.pushData [8] ++ CScript.pushData [9] ++
      CScript.pushData [10] ++ CScript.pushData (Address.asBytes 7) ++ [call]⟩]

theorem plainOutputs_faithful :
    ∃ txs etps, plainOutputs.extractionArtaxTransactions = some (txs, etps) ∧
      List.Forall₂ DecodedFrom (contractOutputs plainOutputs.txBit.vout.zipIdx) txs := by
  have accepted : checkTransaction 8000000 true plainOutputs.txBit = .ok () := by decide +kernel
  have succeeds : plainOutputs.extractionArtaxTransactions.isSome := by decide +kernel
  obtain ⟨⟨txs, etps⟩, extracted⟩ := isSome_iff_exists.1 succeeds
  exact ⟨txs, etps, extracted,
    (extraction_faithful_iff plainOutputs accepted extracted).2 (by decide +kernel)⟩

def shortOutput : CTxOut :=
  ⟨0, CScript.pushData [4] ++ CScript.pushData [7] ++ CScript.pushData [9] ++ [0x61, create]⟩

def sharedStack : ArtaxTxConverter :=
  sample [⟨0, CScript.pushData [4] ++ CScript.pushData [4] ++ CScript.pushData [10] ++
    [0x6e, create]⟩, shortOutput]

/-- Both outputs are accepted and extracted, the second with operands one place off, a gas limit of 4
and not 7; by itself it is not decoded. -/
theorem sharedStack_not_faithful :
    checkTransaction 8000000 true sharedStack.txBit = .ok () ∧
      (∃ txs etps, sharedStack.extractionArtaxTransactions = some (txs, etps) ∧
        txs.map (fun t => (t.gas, t.gasPrice, t.data)) =
          [(10#256, 4#256, [10]), (4#256, 7#256, [9])] ∧
        ¬ List.Forall₂ DecodedFrom (contractOutputs sharedStack.txBit.vout.zipIdx) txs) ∧
      (sample [shortOutput]).extractionArtaxTransactions = none := by
  have decoded : sharedStack.extractionArtaxTransactions.map (fun result =>
      result.1.map fun t => (t.gas, t.gasPrice, t.data)) =
        some [(10#256, 4#256, [10]), (4#256, 7#256, [9])] := by decide +kernel
  obtain ⟨⟨txs, etps⟩, extracted, fields⟩ := map_eq_some_iff.1 decoded
  refine ⟨by decide +kernel, ⟨txs, etps, extracted, fields, fun faithful => ?_⟩, by decide +kernel⟩
  have isOutput : (shortOutput, 1) ∈ contractOutputs sharedStack.txBit.vout.zipIdx := by
    decide +kernel
  obtain ⟨t, own⟩ := exists_of_forall₂ faithful isOutput
  obtain ⟨_, _, _, operands, -⟩ := own.operands
  have three : shortOutput.scriptPubKey.operands.length = 3 := by decide +kernel
  rw [operands, length_append] at three
  simp only [length_cons, length_nil] at three
  omega

end ArtaxTxConverter
end Artax
