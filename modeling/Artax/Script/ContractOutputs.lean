import Artax.Consensus.TxVerify
import Mathlib.Data.List.TakeWhile

/-!
# The contract outputs that pass

What an output with a contract opcode looks like once `Solver` has accepted it: four operand
positions, for a call also the twenty bytes of the address, and the contract opcode at the end.
-/

namespace Artax

open Solver CScript List

namespace CScript

def isContractOp (opcode : UInt8) : Bool := opcode == Op.create || opcode == Op.call

variable {script rest : CScript} {opcode : UInt8} {data : Bytes}

theorem ops_of_getOp (read : getOp script = some (opcode, data, rest)) :
    ops script = (opcode, data) :: ops rest := by
  have shorter := getOp_length read
  obtain ⟨fuel, length⟩ : ∃ fuel, script.length = fuel + 1 := ⟨script.length - 1, by omega⟩
  rw [ops, length, readOps, read]
  exact congrArg _ (readOps_fuel fuel rest (by omega))

theorem ops_of_getOp_none (unread : getOp script = none) : ops script = [] := by
  rw [ops]
  cases script.length with
  | zero => rfl
  | succ fuel => rw [readOps, unread]

theorem getOp_of_ops_cons {first : UInt8 × Bytes} {others : List (UInt8 × Bytes)}
    (reads : ops script = first :: others) :
    ∃ rest, getOp script = some (first.1, first.2, rest) ∧ ops rest = others := by
  cases next : getOp script with
  | none =>
    rw [ops_of_getOp_none next] at reads
    cases reads
  | some found =>
    obtain ⟨opcode, data, rest⟩ := found
    rw [ops_of_getOp next] at reads
    cases reads
    exact ⟨rest, rfl, rfl⟩

theorem push_of_getOp (read : getOp script = some (opcode, data, rest)) (carries : data ≠ []) :
    opcode ≤ Op.pushData4 := by
  cases script with
  | nil => cases read
  | cons first tail =>
    by_cases push : first ≤ Op.pushData4
    · simp only [getOp, if_pos push] at read
      split at read
      · cases read
      · split at read <;> cases read
        exact push
    · simp only [getOp, if_neg push, Option.some.injEq, Prod.mk.injEq] at read
      exact absurd read.2.1.symm carries

theorem head_of_getOp (read : getOp script = some (opcode, data, rest)) :
    script.head? = some opcode := by
  cases script with
  | nil => cases read
  | cons first tail =>
    simp only [getOp] at read
    split at read
    · split at read
      · cases read
      · split at read <;> cases read
        rfl
    · cases read
      rfl

theorem push_of_mem_ops {read : UInt8 × Bytes} (member : read ∈ ops script) (carries : read.2 ≠ [])
    : read.1 ≤ Op.pushData4 := by
  induction length : script.length using Nat.strong_induction_on generalizing script with
  | _ n ih =>
    cases next : getOp script with
    | none => simp [ops_of_getOp_none next] at member
    | some found =>
      obtain ⟨opcode, data, rest⟩ := found
      rw [ops_of_getOp next, mem_cons] at member
      rcases member with rfl | later
      · exact push_of_getOp next carries
      · exact ih rest.length (length ▸ getOp_length next) later rfl

theorem not_push_of_isContractOp (contract : isContractOp opcode) :
    ¬ opcode ≤ Op.pushData4 := by
  simp only [isContractOp, Bool.or_eq_true, beq_iff_eq] at contract
  rcases contract with rfl | rfl <;> decide

theorem exists_of_find {op : UInt8} (once : (find script op == 1)) :
    ∃ read ∈ ops script, read.1 = op := by
  obtain ⟨read, only⟩ := length_eq_one_iff.1 (beq_iff_eq.1 once)
  have member : read ∈ (ops script).filter (fun read => read.1 == op) := by simp [only]
  rw [mem_filter, beq_iff_eq] at member
  exact ⟨read, member⟩

theorem exists_isContractOp (contract : script.isContract) :
    ∃ read ∈ ops script, isContractOp read.1 := by
  rw [isContract, Bool.or_eq_true] at contract
  rcases contract with once | once
  all_goals
    obtain ⟨read, member, same⟩ := exists_of_find once
    exact ⟨read, member, by simp [isContractOp, same]⟩

theorem push_of_lt (small : opcode < Op.pushData1) : opcode ≤ Op.pushData4 := by
  rw [UInt8.lt_iff_toNat_lt] at small
  rw [UInt8.le_iff_toNat_le]
  exact le_trans small.le (by decide)

theorem getOp_direct {size : UInt8} (small : size < Op.pushData1)
    (enough : size.toNat ≤ rest.length) :
    getOp (size :: rest) = some (size, rest.take size.toNat, rest.drop size.toNat) := by
  have push : size ≤ Op.pushData4 := push_of_lt small
  simp only [getOp, if_pos push, operandSize, if_pos small, if_neg (Nat.not_lt.2 enough)]

theorem getOp_plain (plain : ¬ opcode ≤ Op.pushData4) :
    getOp (opcode :: rest) = some (opcode, [], rest) := by
  simp only [getOp, if_neg plain]

theorem not_isContract_of_scriptHash (hash : script.isPayToScriptHash) :
    script.isContract = false := by
  match script, hash with
  | first :: size :: rest, hash =>
    simp only [isPayToScriptHash, length_cons, Bool.and_eq_true, beq_iff_eq,
      getD_cons_zero, getD_cons_succ] at hash
    obtain ⟨⟨⟨length, rfl⟩, rfl⟩, last⟩ := hash
    have tail : rest.drop 20 = [Op.equal] := by
      have one : (rest.drop 20).length = 1 := by simp; omega
      obtain ⟨x, only⟩ := length_eq_one_iff.1 one
      have same : rest.getD 20 0 = x := by
        have dropped := congrArg (·.getD 0 0) only
        simpa [getD_eq_getElem?_getD, getElem?_drop] using dropped
      rw [only, ← same, last]
    have reads : ops (Op.hash160 :: 0x14 :: rest) =
        [(Op.hash160, []), (0x14, rest.take 20), (Op.equal, [])] := by
      rw [ops_of_getOp (getOp_plain (by decide)),
        ops_of_getOp (getOp_direct (by decide) (by change 20 ≤ rest.length; omega))]
      change _ :: (_, rest.take 20) :: ops (rest.drop 20) = _
      rw [tail]
      rfl
    by_contra contract
    obtain ⟨read, member, isOp⟩ := exists_isContractOp (by simpa using contract)
    rw [reads] at member
    simp only [mem_cons, not_mem_nil, or_false] at member
    rcases member with rfl | rfl | rfl <;> exact absurd isOp (by simp only; decide)

theorem not_isContract_of_witnessProgram {found : Nat × Bytes}
    (witness : script.isWitnessProgram = some found) : script.isContract = false := by
  match script, witness with
  | opcode :: size :: program, witness =>
    simp only [isWitnessProgram] at witness
    split_ifs at witness with bounds small exact
    rw [length_cons, length_cons] at bounds exact
    have direct : size < Op.pushData1 := by
      rw [UInt8.lt_iff_toNat_lt]
      change size.toNat < 0x4c
      omega
    have first : getOp (opcode :: size :: program) = some (opcode, [], size :: program) := by
      simp only [isSmallInteger, Bool.not_eq_true, Bool.not_eq_false', Bool.or_eq_true,
        beq_iff_eq, Bool.and_eq_true, decide_eq_true_eq] at small
      rcases small with rfl | ⟨low, -⟩
      · exact getOp_direct (by decide) (by simp [Op.zero])
      · refine getOp_plain fun push => ?_
        rw [UInt8.le_iff_toNat_le] at low push
        exact absurd (le_trans low push) (by decide)
    have reads : ops (opcode :: size :: program) = [(opcode, []), (size, program)] := by
      rw [ops_of_getOp first, ops_of_getOp (getOp_direct direct (by omega)),
        take_of_length_le (by omega), drop_of_length_le (by omega)]
      rfl
    by_contra contract
    obtain ⟨read, member, isOp⟩ := exists_isContractOp (by simpa using contract)
    have plain := not_push_of_isContractOp isOp
    rw [reads] at member
    simp only [mem_cons, not_mem_nil, or_false] at member
    rcases member with rfl | rfl
    · simp only [isSmallInteger, Bool.not_eq_true, Bool.not_eq_false', Bool.or_eq_true,
        beq_iff_eq, Bool.and_eq_true, decide_eq_true_eq] at small
      simp only [isContractOp, Bool.or_eq_true, beq_iff_eq] at isOp
      rcases small with rfl | ⟨-, high⟩
      · exact plain (by decide)
      · rcases isOp with rfl | rfl <;> exact absurd high (by decide)
    · exact plain (push_of_lt direct)

theorem not_isContract_of_nullData (returns : script.head? = some Op.ret)
    (pushes : isPushOnly script.tail) : script.isContract = false := by
  match script, returns with
  | opcode :: rest, returns =>
    cases returns
    by_contra contract
    obtain ⟨read, member, isOp⟩ := exists_isContractOp (by simpa using contract)
    rw [ops_of_getOp (getOp_plain (by decide)), mem_cons] at member
    rcases member with rfl | later
    · exact absurd isOp (by decide)
    · simp only [isPushOnly, tail_cons, Bool.and_eq_true, all_eq_true,
        decide_eq_true_eq] at pushes
      have small := pushes.2 read later
      simp only [isContractOp, Bool.or_eq_true, beq_iff_eq] at isOp
      rcases isOp with same | same <;> rw [same] at small <;> exact absurd small (by decide)

end CScript

namespace Solver

open CScript (isContractOp)

variable {contractConsensus wellFormed : Bool} {version : VersionVM} {solutions found : List Bytes}

variable {opcode2 : UInt8} {after : VersionVM} {template : List UInt8}
  {script : List (UInt8 × Bytes)} {read : UInt8 × Bytes}

theorem not_isContractOp_of_compare {opcode1 : UInt8} {vch1 : Bytes}
    (carries : vch1 ≠ [] → opcode1 ≤ Op.pushData4)
    (other : opcode2 ∉ [Op.version, Op.gasLimit, Op.gasPrice, Op.data, Op.create, Op.call])
    (accepted : compare contractConsensus version solutions opcode1 vch1 opcode2 =
      .accepted after found) : isContractOp opcode1 = false := by
  simp only [mem_cons, not_mem_nil, or_false, not_or] at other
  obtain ⟨noVersion, noLimit, noPrice, noData, noCreate, noCall⟩ := other
  -- an operand of a key or a hash is data, so its opcode is a push
  have ofData : vch1 ≠ [] → isContractOp opcode1 = false := fun data => by
    by_contra contract
    exact not_push_of_isContractOp (by simpa using contract) (carries data)
  simp only [compare, noVersion, noLimit, noPrice, noData, if_false] at accepted
  split_ifs at accepted with key size hash width number small literal
  · refine ofData fun empty => ?_
    simp [empty] at size
  · refine ofData fun empty => ?_
    simp [empty] at width
  · simp only [isSmallInteger, Bool.or_eq_true, beq_iff_eq, Bool.and_eq_true,
      decide_eq_true_eq] at small
    rcases small with rfl | ⟨-, high⟩
    · rfl
    · by_contra contract
      simp only [isContractOp, Bool.not_eq_false, Bool.or_eq_true, beq_iff_eq] at contract
      rcases contract with rfl | rfl <;> exact absurd high (by decide)
  · rw [not_or, not_not] at literal
    rw [literal.1]
    simp [isContractOp, noCreate, noCall]

theorem not_isContractOp_of_match (others : ∀ op ∈ template,
      op ∉ [Op.version, Op.gasLimit, Op.gasPrice, Op.data, Op.create, Op.call])
    (carries : ∀ read ∈ script, read.2 ≠ [] → read.1 ≤ Op.pushData4)
    (matched : matchTemplate contractConsensus wellFormed template version solutions script =
      .found found) : ∀ read ∈ script, isContractOp read.1 = false := by
  induction template generalizing version solutions script with
  | nil =>
    cases script with
    | nil => simp
    | cons read script => cases matched
  | cons opcode2 template ih =>
    rw [forall_mem_cons] at others
    cases script with
    | nil => simp
    | cons first script =>
      rw [matchTemplate] at matched
      split_ifs at matched with keys
      · -- the keys are data; what follows them is compared with the rest of the template
        intro read member
        rw [← takeWhile_append_dropWhile (p := isKeySize) (l := first :: script),
          mem_append] at member
        rcases member with key | later
        · have sized := mem_takeWhile_imp key
          have data : read.2 ≠ [] := fun empty => by simp [isKeySize, empty] at sized
          have push := carries read ((takeWhile_sublist _).subset key) data
          by_contra contract
          exact not_push_of_isContractOp (by simpa using contract) push
        · exact ih others.2 (fun r m => carries r ((dropWhile_sublist _).subset m)) matched read
            later
      · rw [forall_mem_cons] at carries
        split at matched
        case h_1 after kept accepted =>
          rw [forall_mem_cons]
          exact ⟨not_isContractOp_of_compare carries.1 others.1 accepted,
            ih others.2 carries.2 matched⟩
        all_goals cases matched

theorem matchTemplate_cons (single : opcode2 ≠ Op.pubkeys)
    (matched : matchTemplate contractConsensus wellFormed (opcode2 :: template) version solutions
      script = .found found) :
    ∃ read others after kept, script = read :: others ∧
      compare contractConsensus version solutions read.1 read.2 opcode2 = .accepted after kept ∧
      matchTemplate contractConsensus wellFormed template after kept others = .found found := by
  cases script with
  | nil => cases matched
  | cons read others =>
    rw [matchTemplate, if_neg single] at matched
    split at matched
    case h_1 after kept accepted => exact ⟨read, others, after, kept, rfl, accepted, matched⟩
    all_goals cases matched

theorem matchTemplate_nil
    (matched : matchTemplate contractConsensus wellFormed [] version solutions script =
      .found found) : script = [] := by
  cases script with
  | nil => rfl
  | cons read others => cases matched

theorem read_of_compare_contract (contract : isContractOp opcode2)
    (accepted : compare contractConsensus version solutions read.1 read.2 opcode2 =
      .accepted after found) : read = (opcode2, []) := by
  simp only [isContractOp, Bool.or_eq_true, beq_iff_eq] at contract
  rcases contract with rfl | rfl
  all_goals
    rw [compare, if_neg (by decide), if_neg (by decide), if_neg (by decide), if_neg (by decide),
      if_neg (by decide), if_neg (by decide), if_neg (by decide)] at accepted
    split_ifs at accepted with literal
    rw [not_or, not_not, not_not] at literal
    exact Prod.ext literal.1 literal.2

theorem length_of_compare_pubkeyHash
    (accepted : compare contractConsensus version solutions read.1 read.2 Op.pubkeyHash =
      .accepted after found) : read.2.length = 20 := by
  rw [compare, if_neg (by decide), if_pos rfl] at accepted
  split_ifs at accepted with width
  exact not_not.1 width

theorem scanTemplates_cons {script : CScript} {type : TxnOutType}
    {others : List (TxnOutType × List UInt8)} {result : TxnOutType × List Bytes}
    (scanned : scanTemplates contractConsensus script ((type, template) :: others) = some result) :
    (∃ found, matchTemplate contractConsensus script.isWellFormed template unknownVersion []
      script.ops = .found found) ∨ scanTemplates contractConsensus script others = some result := by
  rw [scanTemplates] at scanned
  split at scanned
  case h_1 found matched => exact .inl ⟨found, matched⟩
  case h_2 => exact .inr scanned
  case h_3 => cases scanned

end Solver

/-- The opcodes of a contract output: four operand positions, the address of a call, and the
contract opcode. -/
inductive ContractShape : List (UInt8 × Bytes) → Prop where
  | create (operands : List (UInt8 × Bytes)) (four : operands.length = 4) :
      ContractShape (operands ++ [(Op.create, [])])
  | call (operands : List (UInt8 × Bytes)) (four : operands.length = 4) (address : UInt8 × Bytes)
      (twenty : address.2.length = 20) :
      ContractShape (operands ++ [address] ++ [(Op.call, [])])

namespace Solver

variable {contractConsensus wellFormed : Bool} {version : VersionVM} {solutions found : List Bytes}
  {reads : List (UInt8 × Bytes)}

theorem contractShape_of_create
    (matched : matchTemplate contractConsensus wellFormed
      [Op.version, Op.gasLimit, Op.gasPrice, Op.data, Op.create] version solutions reads =
        .found found) : ContractShape reads := by
  obtain ⟨o1, reads, _, _, rfl, -, matched⟩ := matchTemplate_cons (by decide) matched
  obtain ⟨o2, reads, _, _, rfl, -, matched⟩ := matchTemplate_cons (by decide) matched
  obtain ⟨o3, reads, _, _, rfl, -, matched⟩ := matchTemplate_cons (by decide) matched
  obtain ⟨o4, reads, _, _, rfl, -, matched⟩ := matchTemplate_cons (by decide) matched
  obtain ⟨last, reads, _, _, rfl, literal, matched⟩ := matchTemplate_cons (by decide) matched
  obtain rfl := matchTemplate_nil matched
  obtain rfl := read_of_compare_contract (by decide) literal
  exact .create [o1, o2, o3, o4] rfl

theorem contractShape_of_call
    (matched : matchTemplate contractConsensus wellFormed
      [Op.version, Op.gasLimit, Op.gasPrice, Op.data, Op.pubkeyHash, Op.call] version solutions
        reads = .found found) : ContractShape reads := by
  obtain ⟨o1, reads, _, _, rfl, -, matched⟩ := matchTemplate_cons (by decide) matched
  obtain ⟨o2, reads, _, _, rfl, -, matched⟩ := matchTemplate_cons (by decide) matched
  obtain ⟨o3, reads, _, _, rfl, -, matched⟩ := matchTemplate_cons (by decide) matched
  obtain ⟨o4, reads, _, _, rfl, -, matched⟩ := matchTemplate_cons (by decide) matched
  obtain ⟨address, reads, _, _, rfl, width, matched⟩ := matchTemplate_cons (by decide) matched
  obtain ⟨last, reads, _, _, rfl, literal, matched⟩ := matchTemplate_cons (by decide) matched
  obtain rfl := matchTemplate_nil matched
  obtain rfl := read_of_compare_contract (by decide) literal
  exact .call [o1, o2, o3, o4] rfl address (length_of_compare_pubkeyHash width)

end Solver

theorem contractShape_of_solver {contractConsensus : Bool} {script : CScript}
    (contract : script.isContract) (solved : (solver contractConsensus script).isSome) :
    ContractShape script.ops := by
  obtain ⟨result, solved⟩ := Option.isSome_iff_exists.1 solved
  obtain ⟨op, member, isOp⟩ := exists_isContractOp contract
  have refute : script.isContract = false → ContractShape script.ops := fun other => by
    simp [other] at contract
  -- the first three templates match no script with a contract opcode
  have refuteMatch : ∀ {template : List UInt8}, (∀ op ∈ template,
      op ∉ [Op.version, Op.gasLimit, Op.gasPrice, Op.data, Op.create, Op.call]) →
      (∃ found, matchTemplate contractConsensus script.isWellFormed template
        unknownVersion [] script.ops = .found found) → ContractShape script.ops := by
    rintro template others ⟨found, matched⟩
    have plain := not_isContractOp_of_match others
      (fun read member => push_of_mem_ops member) matched op member
    simp [isOp] at plain
  rw [solver] at solved
  by_cases hash : script.isPayToScriptHash = true
  · exact refute (not_isContract_of_scriptHash hash)
  rw [if_neg hash] at solved
  cases witness : script.isWitnessProgram with
  | some found => exact refute (not_isContract_of_witnessProgram witness)
  | none =>
    simp only [witness] at solved
    by_cases data : script.head? = some Op.ret ∧ isPushOnly script.tail = true
    · exact refute (not_isContract_of_nullData data.1 data.2)
    rw [if_neg data] at solved
    rcases scanTemplates_cons solved with pubkey | solved
    · exact refuteMatch (by decide +kernel) pubkey
    rcases scanTemplates_cons solved with pubkeyHash | solved
    · exact refuteMatch (by decide +kernel) pubkeyHash
    rcases scanTemplates_cons solved with multisig | solved
    · exact refuteMatch (by decide +kernel) multisig
    rcases scanTemplates_cons solved with ⟨_, create⟩ | solved
    · exact contractShape_of_create create
    rcases scanTemplates_cons solved with ⟨_, call⟩ | solved
    · exact contractShape_of_call call
    · cases solved

end Artax
