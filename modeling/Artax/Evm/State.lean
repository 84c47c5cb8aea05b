import Artax.Evm.Account

/-!
# The journaled contract state

`dev::eth::State` as `ArtaxState` specialises it: a trie of accounts read through a write-back cache,
a change log, latest entry first, the ledger of contract outputs, the value transfers and the delete
set. Reads are pure; `fetch` is the caching effect of `State::account`.
-/

namespace Artax

open Function

/-- A value transfer between accounts. -/
structure TransferInfo where
  source : Address
  target : Address
  value : U256
  deriving DecidableEq, Repr

/-- `Vin`: the one output that holds a contract's coins. The default is the value-initialised
entry `std::map::operator[]` inserts. -/
structure Vin where
  hash : H256 := 0
  nVout : UInt32 := 0
  value : U256 := 0#256
  alive : Bool := false
  deriving DecidableEq, Repr

/-- `dev::eth::Change`, with what `rollback` needs. -/
inductive Change where
  | storage (address : Address) (key value : U256)
  | balance (address : Address) (value : U256)
  | nonce (address : Address)
  | create (address : Address)
  | newCode (address : Address)
  | touch (address : Address)
  deriving DecidableEq, Repr

/-- The account that a change is about. -/
def Change.address : Change → Address
  | .storage a _ _ | .balance a _ | .nonce a | .create a | .newCode a | .touch a => a

/-- `ArtaxState`, with the delete set of the seal engine it runs under. -/
structure ArtaxState where
  trie : Address → Option AccountRecord := fun _ => none
  cache : Address → Option Account := fun _ => none
  nonExisting : Address → Bool := fun _ => false
  changeLog : List Change := []
  accountStartNonce : U256 := 0#256
  /-- Where the next account is created instead, when it is not null. -/
  newAddress : Address := 0
  transfers : List TransferInfo := []
  stateUTXO : Address → Option Vin := fun _ => none
  cacheUTXO : Address → Option Vin := fun _ => none
  deleteAddresses : List Address := []

namespace ArtaxState

variable (s : ArtaxState)

/-- `State::account`, without its effect on the cache. -/
def account (a : Address) : Option Account :=
  match s.cache a with
  | some x => some x
  | none => if s.nonExisting a then none else (s.trie a).map Account.ofRecord

/-- The effect of `State::account` on the cache. -/
def fetch (a : Address) : ArtaxState :=
  match s.cache a with
  | some _ => s
  | none =>
    if s.nonExisting a then s
    else match s.trie a with
      | none => { s with nonExisting := update s.nonExisting a true }
      | some entry => { s with cache := update s.cache a (some (.ofRecord entry)) }

/-- `State::addressInUse`. -/
def addressInUse (a : Address) : Bool := (s.account a).isSome

/-- `State::addressHasCode`. -/
def addressHasCode (a : Address) : Bool :=
  match s.account a with
  | some x => !x.code.isEmpty
  | none => false

/-- `State::balance`. -/
def balance (s : ArtaxState) (a : Address) : U256 :=
  match s.account a with
  | some x => x.balance
  | none => 0#256

/-- `State::getNonce`. -/
def getNonce (a : Address) : U256 :=
  match s.account a with
  | some x => x.nonce
  | none => s.accountStartNonce

/-- `State::storage`. -/
def storage (s : ArtaxState) (a : Address) (key : U256) : U256 :=
  match s.account a with
  | some x => x.storage key
  | none => 0#256

/-- An entry of `m_changeLog`. -/
def log (change : Change) : ArtaxState :=
  { s with changeLog := change :: s.changeLog }

/-- Writes an account to the cache. -/
def putAccount (a : Address) (x : Account) : ArtaxState :=
  { s with cache := update s.cache a (some x) }

/-- `State::createAccount`. -/
def createAccount (a : Address) (x : Account) : ArtaxState :=
  { s.putAccount a x with
    nonExisting := update s.nonExisting a false,
    changeLog := .create a :: s.changeLog }

/-- `State::incNonce`; an absent account is created. -/
def incNonce (s : ArtaxState) (a : Address) : ArtaxState :=
  match s.account a with
  | some x => (s.putAccount a x.incNonce).log (.nonce a)
  | none => s.createAccount a (.fresh (s.accountStartNonce + 1#256) 0#256)

/-- The account `ArtaxState::addBalance` credits: an account that does not exist yet is created
at `newAddress` when that is set and not in use. -/
def creditAddress (a : Address) : Address :=
  if (s.account a).isSome then a
  else if !s.addressInUse s.newAddress && s.newAddress != 0 then s.newAddress
  else a

/-- What `ArtaxState::addBalance` does but for the entry in the log. -/
def credit (a : Address) (amount : U256) : ArtaxState :=
  match s.account a with
  | some x =>
    let s := if !x.isDirty && x.isEmpty then s.log (.touch a) else s
    s.putAccount a (x.addBalance amount)
  | none =>
    let target := s.creditAddress a
    let s := if !s.addressInUse s.newAddress && s.newAddress != 0
      then { s with newAddress := 0 } else s
    s.createAccount target (.fresh s.accountStartNonce amount)

/-- `ArtaxState::addBalance`, with the address that it credits. -/
def addBalance (a : Address) (amount : U256) : ArtaxState × Address :=
  let target := s.creditAddress a
  let s := s.credit a amount
  (if amount = 0#256 then s else s.log (.balance target amount), target)

/-- `State::subBalance`, `none` where it throws `NotEnoughCash`. -/
def subBalance (a : Address) (value : U256) : Option ArtaxState :=
  if value = 0#256 then some s
  else match s.account a with
    | none => none
    | some x => if x.balance < value then none else some (s.addBalance a (0#256 - value)).1

/-- `ArtaxState::transferBalance`: every transfer of value is also put on the list. -/
def transferBalance (source target : Address) (value : U256) : Option (ArtaxState × Address) :=
  match s.subBalance source value with
  | none => none
  | some s =>
    let (s, target) := s.addBalance target value
    some (if value = 0#256 then s
      else { s with transfers := s.transfers ++ [⟨source, target, value⟩] }, target)

/-- `State::setStorage`. -/
def setStorage (s : ArtaxState) (a : Address) (key value : U256) : ArtaxState :=
  (s.log (.storage a key (s.storage a key))).putAccount a
    (((s.account a).getD {}).setStorage key value)

/-- `State::setNewCode`. -/
def setNewCode (s : ArtaxState) (a : Address) (code : Bytes) : ArtaxState :=
  (s.putAccount a (((s.cache a).getD {}).setNewCode code)).log (.newCode a)

/-- `State::savepoint`. -/
def savepoint : Nat := s.changeLog.length

/-- One round of the loop of `State::rollback`. -/
def undoChange (cache : Address → Option Account) (change : Change) : Address → Option Account :=
  let x := (cache change.address).getD {}
  match change with
  | .storage a key value => update cache a (some (x.setStorage key value))
  | .balance a value => update cache a (some (x.addBalance (0#256 - value)))
  | .nonce a => update cache a (some (x.setNonce (x.nonce - 1#256)))
  | .create a => update cache a none
  | .newCode a => update cache a (some x.resetCode)
  | .touch a => update cache a (some x.untouch)

/-- `State::rollback`. Transfers and outputs are not rolled back. -/
def rollback (savepoint : Nat) : ArtaxState :=
  let count := s.changeLog.length - savepoint
  { s with cache := (s.changeLog.take count).foldl undoChange s.cache,
           changeLog := s.changeLog.drop count }

/-- `ArtaxState::vin`. -/
def vin (a : Address) : Option Vin :=
  match s.cacheUTXO a with
  | some v => some v
  | none => s.stateUTXO a

/-- Writes an output to `cacheUTXO`. -/
def putVin (a : Address) (v : Vin) : ArtaxState :=
  { s with cacheUTXO := update s.cacheUTXO a (some v) }

/-- `State::kill`. -/
def killAccount (a : Address) : ArtaxState :=
  match s.account a with
  | some x => s.putAccount a x.kill
  | none => s.fetch a

/-- Marks the output of an account as spent. -/
def killVin (a : Address) : ArtaxState :=
  match s.vin a with
  | some v => s.putVin a { v with alive := false }
  | none => s

/-- `ArtaxState::kill`. -/
def kill (a : Address) : ArtaxState := (s.killAccount a).killVin a

/-- `ArtaxState::deleteAccounts`. -/
def deleteAccounts (addrs : List Address) : ArtaxState := addrs.foldl kill s

/-- One round of the loop of `ArtaxState::updateUTXO`. -/
def updateVin (entry : Address × Vin) : ArtaxState :=
  if (s.vin entry.1).isSome || entry.2.alive then s.putVin entry.1 entry.2 else s

/-- `ArtaxState::updateUTXO`. -/
def updateUTXO (vins : List (Address × Vin)) : ArtaxState :=
  vins.foldl updateVin s

/-- `dev::eth::commit` of `cacheUTXO`: dead outputs leave the trie. -/
def commitUTXO : ArtaxState :=
  { s with
    stateUTXO := fun a =>
      match s.cacheUTXO a with
      | some v => if v.alive then some v else none
      | none => s.stateUTXO a
    cacheUTXO := fun _ => none }

/-- `State::removeEmptyAccounts`. -/
def removeEmptyAccounts : ArtaxState :=
  { s with cache := fun a =>
      (s.cache a).map fun x => if x.isDirty && x.isEmpty then x.kill else x }

/-- What `State::commit` stores for one account. -/
def commitEntry (cached : Option Account) (stored : Option AccountRecord) :
    Option AccountRecord :=
  match cached with
  | some x => if x.isDirty then (if x.isAlive then some x.toRecord else none) else stored
  | none => stored

/-- `State::commit`. -/
def commit (removeEmpty : Bool) : ArtaxState :=
  let s := if removeEmpty then s.removeEmptyAccounts else s
  { s with trie := fun a => commitEntry (s.cache a) (s.trie a),
           cache := fun _ => none, changeLog := [] }

/-- The calls of `clear` on both caches. -/
def clearCaches : ArtaxState :=
  { s with cache := fun _ => none, cacheUTXO := fun _ => none }

/-- `State::setRoot` and `ArtaxState::setRootUTXO`. -/
def setRoots (trie : Address → Option AccountRecord) (stateUTXO : Address → Option Vin) :
    ArtaxState :=
  { s with trie, stateUTXO, cache := fun _ => none, cacheUTXO := fun _ => none,
           nonExisting := fun _ => false }

end ArtaxState
end Artax
