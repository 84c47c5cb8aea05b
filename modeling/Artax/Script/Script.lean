import Artax.Primitives.Transaction

/-!
# Scripts

Opcodes, the push encoding of `CScript::operator<<`, the reader `GetScriptOp`
and the contract-opcode tests built on it. A position in a script is the
suffix that is still to be read.
-/

namespace Artax

open Address

namespace Op

def zero : UInt8 := 0x00
def pushData1 : UInt8 := 0x4c
def pushData2 : UInt8 := 0x4d
def pushData4 : UInt8 := 0x4e
def one : UInt8 := 0x51
def sixteen : UInt8 := 0x60
def ret : UInt8 := 0x6a
def dup : UInt8 := 0x76
def equal : UInt8 := 0x87
def equalVerify : UInt8 := 0x88
def hash160 : UInt8 := 0xa9
def checkSig : UInt8 := 0xac
def create : UInt8 := 0xc1
def call : UInt8 := 0xc2
def spend : UInt8 := 0xc3
def invalidOpcode : UInt8 := 0xff

end Op

def maxScriptSize : Nat := 129000

namespace CScript

def littleEndian : Nat → Nat → Bytes
  | 0, _ => []
  | width + 1, value => UInt8.ofNat value :: littleEndian width (value / 256)

def ofLittleEndian : Bytes → Nat
  | [] => 0
  | byte :: rest => byte.toNat + 256 * ofLittleEndian rest

theorem reverse_littleEndian (width value : Nat) :
    (littleEndian width value).reverse = bigEndian width value := by
  induction width generalizing value with
  | zero => rfl
  | succ width ih => rw [littleEndian, List.reverse_cons, ih, bigEndian]

theorem ofBigEndian_reverse (bytes : Bytes) : ofBigEndian bytes.reverse = ofLittleEndian bytes := by
  induction bytes with
  | nil => rfl
  | cons byte rest ih =>
    rw [List.reverse_cons, ofBigEndian_append, ih, ofLittleEndian]
    omega

theorem ofLittleEndian_littleEndian {width value : Nat} (fits : value < 256 ^ width) :
    ofLittleEndian (littleEndian width value) = value := by
  rw [← ofBigEndian_reverse, reverse_littleEndian, ofBigEndian_bigEndian width value fits]

def pushData (data : Bytes) : CScript :=
  if data.length < 0x4c then UInt8.ofNat data.length :: data
  else if data.length ≤ 0xff then Op.pushData1 :: UInt8.ofNat data.length :: data
  else if data.length ≤ 0xffff then Op.pushData2 :: (littleEndian 2 data.length ++ data)
  else Op.pushData4 :: (littleEndian 4 data.length ++ data)

def payToPubkeyHash (address : Address) : CScript :=
  [Op.dup, Op.hash160] ++ pushData (asBytes address) ++ [Op.equalVerify, Op.checkSig]

def noExecCall (address : Address) : CScript :=
  pushData [0] ++ pushData [0] ++ pushData [0] ++ pushData [0] ++
    pushData (asBytes address) ++ [Op.call]

def opSpend : CScript := [Op.spend]

def sizeWidth (opcode : UInt8) : Nat :=
  if opcode = Op.pushData1 then 1 else if opcode = Op.pushData2 then 2 else 4

def operandSize (opcode : UInt8) (rest : Bytes) : Option (Nat × Bytes) :=
  if opcode < Op.pushData1 then some (opcode.toNat, rest)
  else if rest.length < sizeWidth opcode then none
  else some (ofLittleEndian (rest.take (sizeWidth opcode)), rest.drop (sizeWidth opcode))

/-- `GetScriptOp`: the next opcode with its operand and the rest of the script, or `none`
at the end and on a push that runs past it. -/
def getOp : CScript → Option (UInt8 × Bytes × CScript)
  | [] => none
  | opcode :: rest =>
    if opcode ≤ Op.pushData4 then
      match operandSize opcode rest with
      | none => none
      | some (nSize, rest) =>
        if rest.length < nSize then none
        else some (opcode, rest.take nSize, rest.drop nSize)
    else some (opcode, [], rest)

theorem operandSize_length {opcode : UInt8} {rest after : Bytes} {nSize : Nat}
    (read : operandSize opcode rest = some (nSize, after)) : after.length ≤ rest.length := by
  simp only [operandSize] at read
  split at read
  · simp only [Option.some.injEq, Prod.mk.injEq] at read
    rw [read.2]
  · split at read
    · cases read
    · simp only [Option.some.injEq, Prod.mk.injEq] at read
      rw [← read.2]
      simp

theorem getOp_length {script rest : CScript} {opcode : UInt8} {data : Bytes}
    (read : getOp script = some (opcode, data, rest)) : rest.length < script.length := by
  cases script with
  | nil => cases read
  | cons first tail =>
    simp only [getOp] at read
    split at read
    · cases operand : operandSize first tail with
      | none => simp [operand] at read
      | some sized =>
        obtain ⟨nSize, after⟩ := sized
        simp only [operand] at read
        split at read
        · cases read
        · simp only [Option.some.injEq, Prod.mk.injEq] at read
          have bound := operandSize_length operand
          rw [← read.2.2]
          simp only [List.length_drop, List.length_cons]
          omega
    · simp only [Option.some.injEq, Prod.mk.injEq] at read
      rw [read.2.2]
      simp

def readOps : Nat → CScript → List (UInt8 × Bytes)
  | 0, _ => []
  | fuel + 1, script =>
    match getOp script with
    | none => []
    | some (opcode, data, rest) => (opcode, data) :: readOps fuel rest

variable (script : CScript)

def ops : List (UInt8 × Bytes) := readOps script.length script

theorem readOps_fuel (fuel : Nat) (script : CScript) (enough : script.length ≤ fuel) :
    readOps fuel script = ops script := by
  suffices general : ∀ (bound small large : Nat) (script : CScript), script.length ≤ bound →
      script.length ≤ small → script.length ≤ large →
      readOps small script = readOps large script from
    general script.length fuel script.length script (le_refl _) enough (le_refl _)
  intro bound
  induction bound with
  | zero =>
    intro small large script zero _ _
    have : script = [] := List.length_eq_zero_iff.1 (by omega)
    subst this
    cases small <;> cases large <;> rfl
  | succ bound ih =>
    intro small large script fits smallFits largeFits
    cases read : getOp script with
    | none => cases small <;> cases large <;> simp [readOps, read]
    | some result =>
      obtain ⟨opcode, data, rest⟩ := result
      have shorter := getOp_length read
      obtain ⟨small, rfl⟩ : ∃ n, small = n + 1 := ⟨small - 1, by omega⟩
      obtain ⟨large, rfl⟩ : ∃ n, large = n + 1 := ⟨large - 1, by omega⟩
      simp only [readOps, read]
      rw [ih small large rest (by omega) (by omega) (by omega)]

/-- `CScript::Find`. -/
def find (op : UInt8) : Nat :=
  ((ops script).filter (fun read => read.1 == op)).length

def hasOpCreate : Bool := find script Op.create == 1

def hasOpCall : Bool := find script Op.call == 1

def hasOpSpend : Bool := script == opSpend

/-- `IsUnspendable`. -/
def isUnspendable : Bool :=
  (match script with
    | first :: _ => first == Op.ret
    | [] => false) || decide (maxScriptSize < script.length)

theorem payToPubkeyHash_injective {left right : Address}
    (same : payToPubkeyHash left = payToPubkeyHash right) : left = right := by
  simp only [payToPubkeyHash, pushData, asBytes_length] at same
  exact asBytes_injective (by simpa using same)

theorem noExecCall_injective {left right : Address}
    (same : noExecCall left = noExecCall right) : left = right := by
  simp only [noExecCall, pushData, asBytes_length] at same
  exact asBytes_injective (by simpa using same)

theorem noExecCall_ne_payToPubkeyHash (left right : Address) :
    noExecCall left ≠ payToPubkeyHash right := by
  intro same
  simp only [noExecCall, payToPubkeyHash, pushData, asBytes_length] at same
  simp [Op.dup] at same

end CScript

namespace CTransaction

def hasCreateOrCall (tx : CTransaction) : Bool :=
  tx.vout.any fun v => CScript.hasOpCreate v.scriptPubKey || CScript.hasOpCall v.scriptPubKey

def hasOpSpend (tx : CTransaction) : Bool :=
  tx.vin.any fun i => CScript.hasOpSpend i.scriptSig

end CTransaction
end Artax
