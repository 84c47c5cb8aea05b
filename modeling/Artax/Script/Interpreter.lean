import Artax.Script.Script

/-!
# The script interpreter

`EvalScript` as a machine over a stack with its top first, an alternative stack and the open
conditionals. The signature checker, the hash functions and the flags are parameters. The stack is
left as the caller finds it, also on an error.
-/

namespace Artax

open CScript

inductive SigVersion where
  | base | witnessV0
  deriving DecidableEq, Repr

inductive ScriptError where
  | unknownError | opReturn | scriptSize | pushSize | opCount | stackSize | sigCount | pubkeyCount
  | verify | equalVerify | checkMultisigVerify | checkSigVerify | numEqualVerify | badOpcode
  | disabledOpcode | invalidStackOperation | invalidAltstackOperation | unbalancedConditional
  | negativeLockTime | unsatisfiedLockTime | sigHashType | sigDer | minimalData | sigHighS
  | sigNullDummy | pubkeyType | minimalIf | sigNullFail | discourageUpgradableNops
  | witnessPubkeyType | opCodeSeparator | sigFindAndDelete
  deriving DecidableEq, Repr

structure ScriptFlags where
  strictEnc : Bool := false
  derSig : Bool := false
  lowS : Bool := false
  nullDummy : Bool := false
  minimalData : Bool := false
  discourageUpgradableNops : Bool := false
  checkLockTimeVerify : Bool := false
  checkSequenceVerify : Bool := false
  minimalIf : Bool := false
  nullFail : Bool := false
  witnessPubkeyType : Bool := false
  constScriptCode : Bool := false

/-- What a script is evaluated with: the flags, the signature checker and the cryptography. -/
structure ScriptEnv where
  flags : ScriptFlags := {}
  sigversion : SigVersion := .base
  checkSig : Bytes → Bytes → CScript → SigVersion → Bool
  checkLockTime : Int → Bool
  checkSequence : Int → Bool
  ripemd160 : Bytes → Bytes
  sha1 : Bytes → Bytes
  sha256 : Bytes → Bytes
  checkLowS : Bytes → Bool

def maxScriptElementSize : Nat := 128000
def maxOpsPerScript : Nat := 201
def maxPubkeysPerMultisig : Nat := 20
def maxStackSize : Nat := 1000

namespace CScriptNum

def magnitude : Nat → Nat → Bytes
  | 0, _ => []
  | fuel + 1, value =>
    if value = 0 then [] else UInt8.ofNat value :: magnitude fuel (value / 256)

/-- `CScriptNum::serialize`. -/
def serialize (value : Int) : Bytes :=
  let result := magnitude 8 value.natAbs
  match result.getLast? with
  | none => []
  | some last =>
    if last &&& 0x80 ≠ 0 then result ++ [if value < 0 then 0x80 else 0]
    else if value < 0 then result.dropLast ++ [last ||| 0x80]
    else result

/-- `set_vch`. -/
def setVch (vch : Bytes) : Int :=
  match vch.getLast? with
  | none => 0
  | some last =>
    if last &&& 0x80 ≠ 0
    then -(ofLittleEndian (vch.dropLast ++ [last &&& 0x7f]) : Int)
    else ofLittleEndian vch

def isMinimal (vch : Bytes) : Bool :=
  match vch.reverse with
  | [] => true
  | last :: before =>
    last &&& 0x7f ≠ 0 ||
      (match before with
        | [] => false
        | second :: _ => second &&& 0x80 ≠ 0)

def parse (fRequireMinimal : Bool) (nMaxNumSize : Nat) (vch : Bytes) : Option Int :=
  if nMaxNumSize < vch.length then none
  else if fRequireMinimal && !isMinimal vch then none
  else some (setVch vch)

/-- `vch_to_uint64`. -/
def vchToUint64 (vch : Bytes) : Option Nat :=
  if 8 < vch.length then none
  else match vch.getLast? with
    | none => some 0
    | some last => if last &&& 0x80 ≠ 0 then none else some (ofLittleEndian vch)

end CScriptNum

/-- `CastToBool`. -/
def castToBool : Bytes → Bool
  | [] => false
  | [last] => last ≠ 0 && last ≠ 0x80
  | byte :: rest => byte ≠ 0 || castToBool rest

inductive StackOp where
  | drop2 | dup2 | dup3 | over2 | rot2 | swap2 | ifDup | depth | drop | dup | nip | over1 | rot
  | swap | tuck | size
  deriving DecidableEq, Repr

def StackOp.apply : StackOp → List Bytes → Option (List Bytes)
  | drop2, _ :: _ :: s => some s
  | dup2, x2 :: x1 :: s => some (x2 :: x1 :: x2 :: x1 :: s)
  | dup3, x3 :: x2 :: x1 :: s => some (x3 :: x2 :: x1 :: x3 :: x2 :: x1 :: s)
  | over2, x4 :: x3 :: x2 :: x1 :: s => some (x2 :: x1 :: x4 :: x3 :: x2 :: x1 :: s)
  | rot2, x6 :: x5 :: x4 :: x3 :: x2 :: x1 :: s => some (x2 :: x1 :: x6 :: x5 :: x4 :: x3 :: s)
  | swap2, x4 :: x3 :: x2 :: x1 :: s => some (x2 :: x1 :: x4 :: x3 :: s)
  | ifDup, x :: s => some (if castToBool x then x :: x :: s else x :: s)
  | depth, s => some (CScriptNum.serialize s.length :: s)
  | drop, _ :: s => some s
  | dup, x :: s => some (x :: x :: s)
  | nip, x2 :: _ :: s => some (x2 :: s)
  | over1, x2 :: x1 :: s => some (x1 :: x2 :: x1 :: s)
  | rot, x3 :: x2 :: x1 :: s => some (x1 :: x3 :: x2 :: s)
  | swap, x2 :: x1 :: s => some (x1 :: x2 :: s)
  | tuck, x2 :: x1 :: s => some (x2 :: x1 :: x2 :: s)
  | size, x :: s => some (CScriptNum.serialize x.length :: x :: s)
  | _, _ => none

inductive UnaryOp where
  | add1 | sub1 | negate | abs | not | notEqual0
  deriving DecidableEq, Repr

def UnaryOp.apply : UnaryOp → Int → Int
  | add1, bn => bn + 1
  | sub1, bn => bn - 1
  | negate, bn => -bn
  | abs, bn => if bn < 0 then -bn else bn
  | not, bn => if bn = 0 then 1 else 0
  | notEqual0, bn => if bn ≠ 0 then 1 else 0

inductive BinaryOp where
  | add | sub | boolAnd | boolOr | numEqual | numEqualVerify | numNotEqual | lessThan | greaterThan
  | lessThanOrEqual | greaterThanOrEqual | min | max
  deriving DecidableEq, Repr

def BinaryOp.apply : BinaryOp → Int → Int → Int
  | add, bn1, bn2 => bn1 + bn2
  | sub, bn1, bn2 => bn1 - bn2
  | boolAnd, bn1, bn2 => if bn1 ≠ 0 ∧ bn2 ≠ 0 then 1 else 0
  | boolOr, bn1, bn2 => if bn1 ≠ 0 ∨ bn2 ≠ 0 then 1 else 0
  | numEqual, bn1, bn2 | numEqualVerify, bn1, bn2 => if bn1 = bn2 then 1 else 0
  | numNotEqual, bn1, bn2 => if bn1 ≠ bn2 then 1 else 0
  | lessThan, bn1, bn2 => if bn1 < bn2 then 1 else 0
  | greaterThan, bn1, bn2 => if bn1 > bn2 then 1 else 0
  | lessThanOrEqual, bn1, bn2 => if bn1 ≤ bn2 then 1 else 0
  | greaterThanOrEqual, bn1, bn2 => if bn1 ≥ bn2 then 1 else 0
  | min, bn1, bn2 => if bn1 < bn2 then bn1 else bn2
  | max, bn1, bn2 => if bn1 > bn2 then bn1 else bn2

inductive HashOp where
  | ripemd160 | sha1 | sha256 | hash160 | hash256
  deriving DecidableEq, Repr

def HashOp.apply (env : ScriptEnv) : HashOp → Bytes → Bytes
  | ripemd160, vch => env.ripemd160 vch
  | sha1, vch => env.sha1 vch
  | sha256, vch => env.sha256 vch
  | hash160, vch => env.ripemd160 (env.sha256 vch)
  | hash256, vch => env.sha256 (env.sha256 vch)

inductive Instruction where
  | number (n : Int)
  | nop | upgradableNop | checkLockTimeVerify | checkSequenceVerify
  | conditional (negated : Bool)
  | otherwise | endIf | verify | ret | toAltStack | fromAltStack
  | stack (op : StackOp)
  | pick (removed : Bool)
  | equal (verified : Bool)
  | unary (op : UnaryOp)
  | binary (op : BinaryOp)
  | within
  | hash (op : HashOp)
  | codeSeparator
  | checkSig (verified : Bool)
  | checkMultisig (verified : Bool)
  | spend
  | contract
  | invalid
  deriving DecidableEq, Repr

def Instruction.decode (opcode : UInt8) : Instruction :=
  match opcode.toNat with
  | 0x4f => .number (-1) | 0x51 => .number 1 | 0x52 => .number 2 | 0x53 => .number 3
  | 0x54 => .number 4 | 0x55 => .number 5 | 0x56 => .number 6 | 0x57 => .number 7
  | 0x58 => .number 8 | 0x59 => .number 9 | 0x5a => .number 10 | 0x5b => .number 11
  | 0x5c => .number 12 | 0x5d => .number 13 | 0x5e => .number 14 | 0x5f => .number 15
  | 0x60 => .number 16
  | 0x61 => .nop | 0x63 => .conditional false | 0x64 => .conditional true | 0x67 => .otherwise
  | 0x68 => .endIf | 0x69 => .verify | 0x6a => .ret
  | 0x6b => .toAltStack | 0x6c => .fromAltStack | 0x6d => .stack .drop2 | 0x6e => .stack .dup2
  | 0x6f => .stack .dup3 | 0x70 => .stack .over2 | 0x71 => .stack .rot2 | 0x72 => .stack .swap2
  | 0x73 => .stack .ifDup | 0x74 => .stack .depth | 0x75 => .stack .drop | 0x76 => .stack .dup
  | 0x77 => .stack .nip | 0x78 => .stack .over1 | 0x79 => .pick false | 0x7a => .pick true
  | 0x7b => .stack .rot | 0x7c => .stack .swap | 0x7d => .stack .tuck | 0x82 => .stack .size
  | 0x87 => .equal false | 0x88 => .equal true
  | 0x8b => .unary .add1 | 0x8c => .unary .sub1 | 0x8f => .unary .negate | 0x90 => .unary .abs
  | 0x91 => .unary .not | 0x92 => .unary .notEqual0
  | 0x93 => .binary .add | 0x94 => .binary .sub | 0x9a => .binary .boolAnd
  | 0x9b => .binary .boolOr | 0x9c => .binary .numEqual | 0x9d => .binary .numEqualVerify
  | 0x9e => .binary .numNotEqual | 0x9f => .binary .lessThan | 0xa0 => .binary .greaterThan
  | 0xa1 => .binary .lessThanOrEqual | 0xa2 => .binary .greaterThanOrEqual
  | 0xa3 => .binary .min | 0xa4 => .binary .max | 0xa5 => .within
  | 0xa6 => .hash .ripemd160 | 0xa7 => .hash .sha1 | 0xa8 => .hash .sha256
  | 0xa9 => .hash .hash160 | 0xaa => .hash .hash256 | 0xab => .codeSeparator
  | 0xac => .checkSig false | 0xad => .checkSig true | 0xae => .checkMultisig false
  | 0xaf => .checkMultisig true
  | 0xb0 => .upgradableNop | 0xb1 => .checkLockTimeVerify | 0xb2 => .checkSequenceVerify
  | 0xb3 => .upgradableNop | 0xb4 => .upgradableNop | 0xb5 => .upgradableNop
  | 0xb6 => .upgradableNop | 0xb7 => .upgradableNop | 0xb8 => .upgradableNop
  | 0xb9 => .upgradableNop
  | 0xc1 => .contract | 0xc2 => .contract | 0xc3 => .spend
  | _ => .invalid

/-- The disabled opcodes: `OP_CAT` to `OP_RIGHT`, `OP_INVERT` to `OP_XOR`, `OP_2MUL`, `OP_2DIV` and
`OP_MUL` to `OP_RSHIFT`. -/
def isDisabled (opcode : UInt8) : Bool :=
  (0x7e ≤ opcode && opcode ≤ 0x81) || (0x83 ≤ opcode && opcode ≤ 0x86) ||
    opcode == 0x8d || opcode == 0x8e || (0x95 ≤ opcode && opcode ≤ 0x99)

/-- `CheckMinimalPush`. -/
def checkMinimalPush (data : Bytes) (opcode : UInt8) : Bool :=
  match data with
  | [] => opcode == Op.zero
  | [byte] =>
    if (1 ≤ byte && byte ≤ 16) || byte == 0x81 then false else opcode.toNat == 1
  | _ =>
    if data.length ≤ 75 then opcode.toNat == data.length
    else if data.length ≤ 255 then opcode == Op.pushData1
    else if data.length ≤ 65535 then opcode == Op.pushData2
    else true

/-- `IsValidSignatureEncoding`. -/
def isValidSignatureEncoding (sig : Bytes) : Bool :=
  let at' := fun i => sig.getD i 0
  let lenR := (at' 3).toNat
  let lenS := (at' (5 + lenR)).toNat
  9 ≤ sig.length && sig.length ≤ 73 && at' 0 == 0x30 && (at' 1).toNat == sig.length - 3 &&
    5 + lenR < sig.length && lenR + lenS + 7 == sig.length &&
    at' 2 == 0x02 && lenR ≠ 0 && at' 4 &&& 0x80 == 0 &&
    !(1 < lenR && at' 4 == 0 && at' 5 &&& 0x80 == 0) &&
    at' (lenR + 4) == 0x02 && lenS ≠ 0 && at' (lenR + 6) &&& 0x80 == 0 &&
    !(1 < lenS && at' (lenR + 6) == 0 && at' (lenR + 7) &&& 0x80 == 0)

def isDefinedHashtypeSignature (sig : Bytes) : Bool :=
  match sig.getLast? with
  | none => false
  | some last => 1 ≤ last &&& 0x7f && last &&& 0x7f ≤ 3

/-- `CheckSignatureEncoding`. -/
def checkSignatureEncoding (env : ScriptEnv) (sig : Bytes) : Option ScriptError :=
  let flags := env.flags
  if sig.isEmpty then none
  else if (flags.derSig || flags.lowS || flags.strictEnc) && !isValidSignatureEncoding sig
  then some .sigDer
  else if flags.lowS && !env.checkLowS sig.dropLast then some .sigHighS
  else if flags.strictEnc && !isDefinedHashtypeSignature sig then some .sigHashType
  else none

def isCompressedPubKey (key : Bytes) : Bool :=
  key.length == 33 && (key.getD 0 0 == 0x02 || key.getD 0 0 == 0x03)

def isCompressedOrUncompressedPubKey (key : Bytes) : Bool :=
  isCompressedPubKey key || (key.length == 65 && key.getD 0 0 == 0x04)

/-- `CheckPubKeyEncoding`. -/
def checkPubKeyEncoding (env : ScriptEnv) (key : Bytes) : Option ScriptError :=
  if env.flags.strictEnc && !isCompressedOrUncompressedPubKey key then some .pubkeyType
  else if env.flags.witnessPubkeyType && env.sigversion == .witnessV0 && !isCompressedPubKey key
  then some .witnessPubkeyType
  else none

def checkEncodings (env : ScriptEnv) (sig key : Bytes) : Option ScriptError :=
  (checkSignatureEncoding env sig).or (checkPubKeyEncoding env key)

def skipMatches (pattern : CScript) : Nat → CScript → Nat × CScript
  | 0, script => (0, script)
  | fuel + 1, script =>
    if script.take pattern.length = pattern then
      let (found, rest) := skipMatches pattern fuel (script.drop pattern.length)
      (found + 1, rest)
    else (0, script)

def deleteMatches (pattern : CScript) : Nat → CScript → Nat × CScript
  | 0, script => (0, script)
  | fuel + 1, script =>
    let (found, kept) := skipMatches pattern script.length script
    match getOp kept with
    | none => (found, kept)
    | some (_, _, rest) =>
      let (later, result) := deleteMatches pattern fuel rest
      (found + later, kept.take (kept.length - rest.length) ++ result)

/-- `FindAndDelete`. -/
def findAndDelete (script pattern : CScript) : Nat × CScript :=
  if pattern.isEmpty then (0, script) else deleteMatches pattern (script.length + 1) script

def dropSignatures (env : ScriptEnv) : List Bytes → CScript → Option CScript
  | [], scriptCode => some scriptCode
  | sig :: sigs, scriptCode =>
    if env.sigversion = .base then
      let (found, scriptCode) := findAndDelete scriptCode (pushData sig)
      if 0 < found && env.flags.constScriptCode then none else dropSignatures env sigs scriptCode
    else dropSignatures env sigs scriptCode

def matchSignatures (env : ScriptEnv) (scriptCode : CScript) :
    List Bytes → List Bytes → Except ScriptError Bool
  | _, [] => .ok true
  | [], _ :: _ => .ok false
  | key :: keys, sig :: sigs =>
    match checkEncodings env sig key with
    | some error => .error error
    | none =>
      let sigs := if env.checkSig sig key scriptCode env.sigversion then sigs else sig :: sigs
      if keys.length < sigs.length then .ok false else matchSignatures env scriptCode keys sigs

/-- The variables of `EvalScript`; the position is passed beside them. -/
structure Machine where
  stack : List Bytes
  altstack : List Bytes := []
  vfExec : List Bool := []
  nOpCount : Nat := 0
  codeHash : CScript := []
  deriving DecidableEq, Repr

inductive ScriptOutcome where
  | next (m : Machine)
  | halt (error : Option ScriptError) (stack : List Bytes)
  deriving DecidableEq, Repr

namespace Machine

variable (m : Machine)

def fail (error : ScriptError) : ScriptOutcome := .halt (some error) m.stack

def withStack (stack : List Bytes) : ScriptOutcome := .next { m with stack }

def pushBool (value verified : Bool) (error : ScriptError) (stack : List Bytes) : ScriptOutcome :=
  let pushed := (if value then [1] else []) :: stack
  if verified then
    if value then m.withStack stack else .halt (some error) pushed
  else m.withStack pushed

/-- `OP_CHECKLOCKTIMEVERIFY` and `OP_CHECKSEQUENCEVERIFY` once enabled: the operand, whether it
disables the check, and the check. -/
def checkLock (env : ScriptEnv) (ignored : Int → Bool) (check : Int → Bool) : ScriptOutcome :=
  match m.stack with
  | [] => m.fail .invalidStackOperation
  | top :: _ =>
    match CScriptNum.parse env.flags.minimalData 5 top with
    | none => m.fail .unknownError
    | some n =>
      if n < 0 then m.fail .negativeLockTime
      else if ignored n then .next m
      else if check n then .next m
      else m.fail .unsatisfiedLockTime

def conditional (env : ScriptEnv) (fExec negated : Bool) : ScriptOutcome :=
  if !fExec then .next { m with vfExec := false :: m.vfExec }
  else match m.stack with
    | [] => m.fail .unbalancedConditional
    | vch :: rest =>
      if env.sigversion == .witnessV0 && env.flags.minimalIf && !(vch == [] || vch == [1])
      then m.fail .minimalIf
      else .next { m with stack := rest, vfExec := (castToBool vch != negated) :: m.vfExec }

def pick (env : ScriptEnv) (removed : Bool) : ScriptOutcome :=
  match m.stack with
  | top :: rest@(_ :: _) =>
    match CScriptNum.parse env.flags.minimalData 4 top with
    | none => m.fail .unknownError
    | some n =>
      if n < 0 then .halt (some .invalidStackOperation) rest
      else match rest[n.toNat]? with
        | none => .halt (some .invalidStackOperation) rest
        | some vch => m.withStack (vch :: if removed then rest.eraseIdx n.toNat else rest)
  | _ => m.fail .invalidStackOperation

def binary (env : ScriptEnv) (op : BinaryOp) : ScriptOutcome :=
  match m.stack with
  | x2 :: x1 :: rest =>
    match CScriptNum.parse env.flags.minimalData 4 x1,
        CScriptNum.parse env.flags.minimalData 4 x2 with
    | some bn1, some bn2 =>
      let result := CScriptNum.serialize (op.apply bn1 bn2)
      if op = .numEqualVerify then
        if castToBool result then m.withStack rest
        else .halt (some .numEqualVerify) (result :: rest)
      else m.withStack (result :: rest)
    | _, _ => m.fail .unknownError
  | _ => m.fail .invalidStackOperation

def within (env : ScriptEnv) : ScriptOutcome :=
  match m.stack with
  | x3 :: x2 :: x1 :: rest =>
    match CScriptNum.parse env.flags.minimalData 4 x1,
        CScriptNum.parse env.flags.minimalData 4 x2,
        CScriptNum.parse env.flags.minimalData 4 x3 with
    | some bn1, some bn2, some bn3 =>
      m.pushBool (decide (bn2 ≤ bn1 ∧ bn1 < bn3)) false .unknownError rest
    | _, _, _ => m.fail .unknownError
  | _ => m.fail .invalidStackOperation

def checkSig (m : Machine) (env : ScriptEnv) (verified : Bool) : ScriptOutcome :=
  match m.stack with
  | key :: sig :: rest =>
    match dropSignatures env [sig] m.codeHash with
    | none => m.fail .sigFindAndDelete
    | some scriptCode =>
      match checkEncodings env sig key with
      | some error => m.fail error
      | none =>
        let fSuccess := env.checkSig sig key scriptCode env.sigversion
        if !fSuccess && env.flags.nullFail && !sig.isEmpty then m.fail .sigNullFail
        else m.pushBool fSuccess verified .checkSigVerify rest
  | _ => m.fail .invalidStackOperation

/-- The end of `OP_CHECKMULTISIG`, once the arguments are told apart: keys, signatures and what is
below, the extra element first. -/
def finishMultisig (env : ScriptEnv) (verified : Bool) (keys sigs : List Bytes) (below : List Bytes) :
    ScriptOutcome :=
  match dropSignatures env sigs m.codeHash with
  | none => m.fail .sigFindAndDelete
  | some scriptCode =>
    match matchSignatures env scriptCode keys sigs with
    | .error error => m.fail error
    | .ok fSuccess =>
      if !fSuccess && env.flags.nullFail && sigs.any (!·.isEmpty)
      then .halt (some .sigNullFail) (sigs.dropWhile (·.isEmpty) ++ below)
      else match below with
        | [] => .halt (some .invalidStackOperation) []
        | dummy :: rest =>
          if env.flags.nullDummy && !dummy.isEmpty then .halt (some .sigNullDummy) below
          else m.pushBool fSuccess verified .checkMultisigVerify rest

def checkMultisig (env : ScriptEnv) (verified : Bool) : ScriptOutcome :=
  match m.stack with
  | [] => m.fail .invalidStackOperation
  | keysCount :: rest =>
    match CScriptNum.parse env.flags.minimalData 4 keysCount with
    | none => m.fail .unknownError
    | some nKeysCount =>
      if nKeysCount < 0 ∨ (maxPubkeysPerMultisig : Int) < nKeysCount then m.fail .pubkeyCount
      else
        let nKeys := nKeysCount.toNat
        let m := { m with nOpCount := m.nOpCount + nKeys }
        if maxOpsPerScript < m.nOpCount then m.fail .opCount
        else match rest.drop nKeys with
          | [] => m.fail .invalidStackOperation
          | sigsCount :: others =>
            match CScriptNum.parse env.flags.minimalData 4 sigsCount with
            | none => m.fail .unknownError
            | some nSigsCount =>
              if nSigsCount < 0 ∨ nKeysCount < nSigsCount then m.fail .sigCount
              else if others.length < nSigsCount.toNat + 1 then m.fail .invalidStackOperation
              else m.finishMultisig env verified (rest.take nKeys) (others.take nSigsCount.toNat)
                (others.drop nSigsCount.toNat)

def exec (env : ScriptEnv) (fExec : Bool) (here rest : CScript) :
    Instruction → ScriptOutcome
  | .number n => m.withStack (CScriptNum.serialize n :: m.stack)
  | .nop => .next m
  | .upgradableNop =>
    if env.flags.discourageUpgradableNops then m.fail .discourageUpgradableNops else .next m
  | .checkLockTimeVerify =>
    if !env.flags.checkLockTimeVerify then .next m
    else m.checkLock env (fun _ => false) env.checkLockTime
  | .checkSequenceVerify =>
    if !env.flags.checkSequenceVerify then .next m
    else m.checkLock env (fun n => n.toNat.testBit 31) env.checkSequence
  | .conditional negated => m.conditional env fExec negated
  | .otherwise =>
    match m.vfExec with
    | [] => m.fail .unbalancedConditional
    | top :: others => .next { m with vfExec := (!top) :: others }
  | .endIf =>
    match m.vfExec with
    | [] => m.fail .unbalancedConditional
    | _ :: others => .next { m with vfExec := others }
  | .verify =>
    match m.stack with
    | [] => m.fail .invalidStackOperation
    | top :: others => if castToBool top then m.withStack others else m.fail .verify
  | .ret => m.fail .opReturn
  | .toAltStack =>
    match m.stack with
    | [] => m.fail .invalidStackOperation
    | top :: others => .next { m with stack := others, altstack := top :: m.altstack }
  | .fromAltStack =>
    match m.altstack with
    | [] => m.fail .invalidAltstackOperation
    | top :: others => .next { m with stack := top :: m.stack, altstack := others }
  | .stack op =>
    match op.apply m.stack with
    | none => m.fail .invalidStackOperation
    | some stack => m.withStack stack
  | .pick removed => m.pick env removed
  | .equal verified =>
    match m.stack with
    | x2 :: x1 :: others => m.pushBool (x1 == x2) verified .equalVerify others
    | _ => m.fail .invalidStackOperation
  | .unary op =>
    match m.stack with
    | [] => m.fail .invalidStackOperation
    | top :: others =>
      match CScriptNum.parse env.flags.minimalData 4 top with
      | none => m.fail .unknownError
      | some bn => m.withStack (CScriptNum.serialize (op.apply bn) :: others)
  | .binary op => m.binary env op
  | .within => m.within env
  | .hash op =>
    match m.stack with
    | [] => m.fail .invalidStackOperation
    | top :: others => m.withStack (op.apply env top :: others)
  | .codeSeparator => .next { m with codeHash := rest }
  | .checkSig verified => m.checkSig env verified
  | .checkMultisig verified => m.checkMultisig env verified
  | .spend => .halt none m.stack
  | .contract => .halt none (here :: m.stack)
  | .invalid => m.fail .badOpcode

def limit : ScriptOutcome → ScriptOutcome
  | .next m =>
    if maxStackSize < m.stack.length + m.altstack.length then m.fail .stackSize else .next m
  | halted => halted

def step (env : ScriptEnv) (opcode : UInt8) (vchPushValue : Bytes) (here rest : CScript)
    (m : Machine) : ScriptOutcome :=
  let fExec := m.vfExec.all id
  let counted := if Op.sixteen < opcode then { m with nOpCount := m.nOpCount + 1 } else m
  if maxScriptElementSize < vchPushValue.length then m.fail .pushSize
  else if Op.sixteen < opcode ∧ maxOpsPerScript < counted.nOpCount then m.fail .opCount
  else if isDisabled opcode then m.fail .disabledOpcode
  else if opcode = 0xab ∧ env.sigversion = .base ∧ env.flags.constScriptCode then
    m.fail .opCodeSeparator
  else if fExec ∧ opcode ≤ Op.pushData4 then
    if env.flags.minimalData && !checkMinimalPush vchPushValue opcode then m.fail .minimalData
    else limit (counted.withStack (vchPushValue :: m.stack))
  -- `OP_IF` to `OP_ENDIF` are also executed inside a branch that is not taken
  else if fExec ∨ (0x63 ≤ opcode ∧ opcode ≤ 0x68) then
    limit (counted.exec env fExec here rest (Instruction.decode opcode))
  else limit (.next counted)

def finish : Option ScriptError × List Bytes :=
  (if m.vfExec.isEmpty then none else some .unbalancedConditional, m.stack)

def run (env : ScriptEnv) : Nat → CScript → Machine → Option ScriptError × List Bytes
  | 0, _, m => m.finish
  | fuel + 1, script, m =>
    if script.isEmpty then m.finish
    else match getOp script with
      | none => (some .badOpcode, m.stack)
      | some (opcode, vchPushValue, rest) =>
        match step env opcode vchPushValue script rest m with
        | .halt error stack => (error, stack)
        | .next m => run env fuel rest m

end Machine

/-- `EvalScript`. -/
def evalScript (env : ScriptEnv) (stack : List Bytes) (script : CScript) :
    Option ScriptError × List Bytes :=
  if maxScriptSize < script.length then (some .scriptSize, stack)
  else Machine.run env script.length script { stack, codeHash := script }

end Artax
