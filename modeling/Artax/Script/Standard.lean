import Artax.Dgp.ArtaxDGP
import Artax.Evm.Executive
import Artax.Script.Interpreter

/-!
# Standard scripts

`Solver` with its templates. The template matcher walks the opcodes of a script beside those of a
template; the operand positions of the contract templates also accept opcodes that push no data.
-/

namespace Artax

inductive TxnOutType where
  | nonStandard | pubkey | pubkeyHash | scriptHash | multisig | nullData | witnessV0ScriptHash
  | witnessV0KeyHash | witnessUnknown | create | call
  deriving DecidableEq, Repr

namespace Op

def checkMultisig : UInt8 := 0xae
def gasPrice : UInt8 := 0xf5
def version : UInt8 := 0xf6
def gasLimit : UInt8 := 0xf7
def data : UInt8 := 0xf8
def smallInteger : UInt8 := 0xfa
def pubkeys : UInt8 := 0xfb
def pubkeyHash : UInt8 := 0xfd
def pubkey : UInt8 := 0xfe

end Op

def standardMinimumGasLimit : Nat := 10000
def standardMinimumGasPrice : Nat := 1

namespace CScript

variable (script : CScript)

/-- `IsPayToScriptHash`. -/
def isPayToScriptHash : Bool :=
  script.length == 23 && script.getD 0 0 == Op.hash160 && script.getD 1 0 == 0x14 &&
    script.getD 22 0 == Op.equal

def isPayToPubkey : Bool :=
  (script.length == 35 && script.getD 0 0 == 33 && script.getD 34 0 == Op.checkSig &&
      (script.getD 1 0 == 0x02 || script.getD 1 0 == 0x03)) ||
    (script.length == 67 && script.getD 0 0 == 65 && script.getD 66 0 == Op.checkSig &&
      script.getD 1 0 == 0x04)

def isPayToPubkeyHash : Bool :=
  script.length == 25 && script.getD 0 0 == Op.dup && script.getD 1 0 == Op.hash160 &&
    script.getD 2 0 == 0x14 && script.getD 23 0 == Op.equalVerify && script.getD 24 0 == Op.checkSig

def decodeOpN (opcode : UInt8) : Nat := if opcode = Op.zero then 0 else opcode.toNat - 0x50

def isSmallInteger (opcode : UInt8) : Bool :=
  opcode == Op.zero || (Op.one ≤ opcode && opcode ≤ Op.sixteen)

/-- `IsWitnessProgram`. -/
def isWitnessProgram : Option (Nat × Bytes) :=
  match script with
  | opcode :: size :: program =>
    if script.length < 4 ∨ 42 < script.length then none
    else if !isSmallInteger opcode then none
    else if size.toNat + 2 = script.length then some (decodeOpN opcode, program)
    else none
  | _ => none

def readsToEnd : Nat → CScript → Bool
  | 0, script => script.isEmpty
  | fuel + 1, script =>
    script.isEmpty || (match getOp script with
      | none => false
      | some (_, _, rest) => readsToEnd fuel rest)

def isWellFormed : Bool := readsToEnd script.length script

/-- `IsPushOnly`. -/
def isPushOnly : Bool :=
  isWellFormed script && (ops script).all fun read => decide (read.1 ≤ Op.sixteen)

end CScript

namespace Solver

def templates : List (TxnOutType × List UInt8) :=
  [(.pubkey, [Op.pubkey, Op.checkSig]),
    (.pubkeyHash, [Op.dup, Op.hash160, Op.pubkeyHash, Op.equalVerify, Op.checkSig]),
    (.multisig, [Op.smallInteger, Op.pubkeys, Op.smallInteger, Op.checkMultisig]),
    (.create, [Op.version, Op.gasLimit, Op.gasPrice, Op.data, Op.create]),
    (.call, [Op.version, Op.gasLimit, Op.gasPrice, Op.data, Op.pubkeyHash, Op.call])]

inductive Verdict where
  | found (solutions : List Bytes)
  | mismatch
  | refused
  deriving DecidableEq, Repr

/-- What one opcode of a script does to the comparison: the version and solutions it goes on with. -/
inductive Compared where
  | accepted (version : VersionVM) (solutions : List Bytes)
  | mismatch
  | refused
  deriving DecidableEq, Repr

def compareVersion (version : VersionVM) (solutions : List Bytes) (opcode1 : UInt8) (vch1 : Bytes) :
    Compared :=
  if opcode1 ≤ Op.pushData4 then
    if vch1.isEmpty ∨ 4 < vch1.length then .refused
    else match CScriptNum.vchToUint64 vch1 with
      | none => .refused
      | some raw =>
        let version := VersionVM.fromRaw (BitVec.ofNat 32 raw)
        if version.toRaw = VersionVM.evmDefault.toRaw ∨ version.toRaw = VersionVM.noExec.toRaw
        then .accepted version solutions
        else .refused
  else .accepted version solutions

def compareGasLimit (contractConsensus : Bool) (version : VersionVM) (solutions : List Bytes)
    (vch1 : Bytes) : Compared :=
  match CScriptNum.vchToUint64 vch1 with
  | none => .refused
  | some val =>
    let least := if contractConsensus then 1 else standardMinimumGasLimit
    let most := if contractConsensus then maxBlockGasLimitDGP.toNat
      else defaultBlockGasLimitDGP.toNat / 2
    if version.rootVM ≠ 0 ∧ val < least then .refused
    else if most < val then .refused
    else .accepted version solutions

def compareGasPrice (contractConsensus : Bool) (version : VersionVM) (solutions : List Bytes)
    (vch1 : Bytes) : Compared :=
  match CScriptNum.vchToUint64 vch1 with
  | none => .refused
  | some val =>
    let least := if contractConsensus then 1 else standardMinimumGasPrice
    if version.rootVM ≠ 0 ∧ val < least then .refused else .accepted version solutions

def compare (contractConsensus : Bool) (version : VersionVM) (solutions : List Bytes)
    (opcode1 : UInt8) (vch1 : Bytes) (opcode2 : UInt8) : Compared :=
  if opcode2 = Op.pubkey then
    if vch1.length < 33 ∨ 65 < vch1.length then .mismatch
    else .accepted version (solutions ++ [vch1])
  else if opcode2 = Op.pubkeyHash then
    if vch1.length ≠ 20 then .mismatch else .accepted version (solutions ++ [vch1])
  else if opcode2 = Op.smallInteger then
    if CScript.isSmallInteger opcode1
    then .accepted version (solutions ++ [[UInt8.ofNat (CScript.decodeOpN opcode1)]])
    else .mismatch
  else if opcode2 = Op.version then compareVersion version solutions opcode1 vch1
  else if opcode2 = Op.gasLimit then compareGasLimit contractConsensus version solutions vch1
  else if opcode2 = Op.gasPrice then compareGasPrice contractConsensus version solutions vch1
  else if opcode2 = Op.data then
    if opcode1 ≤ Op.pushData4 ∧ vch1.isEmpty then .mismatch else .accepted version solutions
  else if opcode1 ≠ opcode2 ∨ vch1 ≠ [] then .mismatch
  else .accepted version solutions

def isKeySize (read : UInt8 × Bytes) : Bool := 33 ≤ read.2.length && read.2.length ≤ 65

def matchTemplate (contractConsensus wellFormed : Bool) : List UInt8 → VersionVM → List Bytes →
    List (UInt8 × Bytes) → Verdict
  | [], _, solutions, [] => if wellFormed then .found solutions else .mismatch
  | [], _, _, _ :: _ => .mismatch
  | _ :: _, _, _, [] => .mismatch
  | opcode2 :: template, version, solutions, read :: script =>
    if opcode2 = Op.pubkeys then
      matchTemplate contractConsensus wellFormed template version
        (solutions ++ ((read :: script).takeWhile isKeySize).map Prod.snd)
        ((read :: script).dropWhile isKeySize)
    else match compare contractConsensus version solutions read.1 read.2 opcode2 with
      | .accepted version solutions =>
        matchTemplate contractConsensus wellFormed template version solutions script
      | .mismatch => .mismatch
      | .refused => .refused

def isMultisig (solutions : List Bytes) : Bool :=
  let m := ((solutions.head?.getD []).getD 0 0).toNat
  let n := ((solutions.getLast?.getD []).getD 0 0).toNat
  1 ≤ m && 1 ≤ n && m ≤ n && solutions.length - 2 == n

def unknownVersion : VersionVM := ⟨0, 20, 0, 0⟩

def scanTemplates (contractConsensus : Bool) (script : CScript) :
    List (TxnOutType × List UInt8) → Option (TxnOutType × List Bytes)
  | [] => none
  | (type, template) :: rest =>
    match matchTemplate contractConsensus script.isWellFormed template unknownVersion [] script.ops
    with
    | .found solutions =>
      if type = .multisig ∧ !isMultisig solutions then none else some (type, solutions)
    | .mismatch => scanTemplates contractConsensus script rest
    | .refused => none

end Solver

/-- `Solver`. -/
def solver (contractConsensus : Bool) (scriptPubKey : CScript) :
    Option (TxnOutType × List Bytes) :=
  if scriptPubKey.isPayToScriptHash then some (.scriptHash, [(scriptPubKey.drop 2).take 20])
  else match scriptPubKey.isWitnessProgram with
    | some (witnessversion, program) =>
      if witnessversion = 0 ∧ program.length = 20 then some (.witnessV0KeyHash, [program])
      else if witnessversion = 0 ∧ program.length = 32 then some (.witnessV0ScriptHash, [program])
      else if witnessversion ≠ 0
      then some (.witnessUnknown, [[UInt8.ofNat witnessversion], program])
      else none
    | none =>
      if scriptPubKey.head? = some Op.ret ∧ CScript.isPushOnly scriptPubKey.tail
      then some (.nullData, [])
      else Solver.scanTemplates contractConsensus scriptPubKey Solver.templates

/-- The key hash of a script that pays to a public key or its hash, else the zero address, as
`EthAddrFromScript` and `GetSenderAddress` extract it. -/
def ethAddrFromScript (hash160 : Bytes → Address) (script : CScript) : Address :=
  match solver false script with
  | some (.pubkey, [key]) =>
    -- `CPubKey` holds a key only when its length is the one its first byte announces
    if isCompressedPubKey key ∨
      (key.length = 65 ∧ (key.getD 0 0 = 4 ∨ key.getD 0 0 = 6 ∨ key.getD 0 0 = 7))
    then hash160 key else 0
  | some (.pubkeyHash, [hash]) => Address.ofBytes hash
  | _ => 0

end Artax
