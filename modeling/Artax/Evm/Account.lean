import Artax.Primitives.Transaction
import Mathlib.Data.BitVec

/-!
# Accounts

`dev::eth::Account` with its liveness and change marks. A storage root is modelled by the storage it
commits to and a code hash by the code; reading storage consults the overlay first.
-/

namespace Artax

/-- What the account trie stores for an address: the four RLP items with their roots resolved. -/
structure AccountRecord where
  nonce : U256
  balance : U256
  storage : U256 → U256
  code : Bytes

/-- `dev::eth::Account`; the default value is the dead account of the default constructor. -/
structure Account where
  isAlive : Bool := false
  isUnchanged : Bool := false
  nonce : U256 := 0#256
  balance : U256 := 0#256
  storageRoot : U256 → U256 := fun _ => 0#256
  storageOverlay : U256 → Option U256 := fun _ => none
  code : Bytes := []

namespace Account

def fresh (nonce balance : U256) : Account := { isAlive := true, nonce, balance }

def ofRecord (entry : AccountRecord) : Account :=
  { isAlive := true, isUnchanged := true, nonce := entry.nonce, balance := entry.balance,
    storageRoot := entry.storage, code := entry.code }

variable (a : Account)

/-- `Account::isDirty`. -/
def isDirty : Bool := !a.isUnchanged

/-- `Account::isEmpty`. -/
def isEmpty (a : Account) : Bool := a.nonce == 0#256 && a.balance == 0#256 && a.code.isEmpty

def storage (key : U256) : U256 := (a.storageOverlay key).getD (a.storageRoot key)

def addBalance (value : U256) : Account :=
  { a with balance := a.balance + value, isUnchanged := false }

def incNonce : Account := { a with nonce := a.nonce + 1#256, isUnchanged := false }

def setNonce (nonce : U256) : Account := { a with nonce, isUnchanged := false }

def setStorage (key value : U256) : Account :=
  { a with storageOverlay := Function.update a.storageOverlay key (some value),
           isUnchanged := false }

/-- `Account::setNewCode`. -/
def setNewCode (code : Bytes) : Account := { a with code }

/-- `Account::resetCode`. -/
def resetCode : Account := { a with code := [] }

/-- `Account::untouch`. -/
def untouch : Account := { a with isUnchanged := true }

/-- `Account::kill`. -/
def kill (a : Account) : Account :=
  { a with isAlive := false, storageOverlay := fun _ => none, code := [], storageRoot := fun _ => 0#256,
           balance := 0#256, nonce := 0#256, isUnchanged := false }

def toRecord : AccountRecord :=
  { nonce := a.nonce, balance := a.balance, storage := a.storage, code := a.code }

variable (entry : AccountRecord)

@[simp] theorem isUnchanged_ofRecord : (ofRecord entry).isUnchanged = true := rfl

@[simp] theorem code_ofRecord : (ofRecord entry).code = entry.code := rfl

@[simp] theorem balance_ofRecord : (ofRecord entry).balance = entry.balance := rfl

theorem storage_setStorage (key value : U256) :
    (a.setStorage key value).storage = Function.update a.storage key value := by
  funext slot
  by_cases same : slot = key
  · subst same
    simp [setStorage, storage]
  · simp [setStorage, storage, same]

/-- One account stands in for another: same life, nonce, balance, code and storage, at least as
dirty, and with the same change mark when it is empty. Rolling back restores accounts up to this
relation. -/
structure StandsFor (restored original : Account) : Prop where
  isAlive : restored.isAlive = original.isAlive
  nonce : restored.nonce = original.nonce
  balance : restored.balance = original.balance
  code : restored.code = original.code
  storage : restored.storage = original.storage
  dirty : original.isUnchanged = false → restored.isUnchanged = false
  empty : original.isEmpty = true → restored.isUnchanged = original.isUnchanged

namespace StandsFor

variable {a b c : Account}

theorem refl (a : Account) : StandsFor a a :=
  ⟨rfl, rfl, rfl, rfl, rfl, id, fun _ => rfl⟩

theorem isEmpty_eq (h : StandsFor a b) : a.isEmpty = b.isEmpty := by
  simp only [Account.isEmpty, h.nonce, h.balance, h.code]

theorem trans (ab : StandsFor a b) (bc : StandsFor b c) : StandsFor a c where
  isAlive := ab.isAlive.trans bc.isAlive
  nonce := ab.nonce.trans bc.nonce
  balance := ab.balance.trans bc.balance
  code := ab.code.trans bc.code
  storage := ab.storage.trans bc.storage
  dirty := fun h => ab.dirty (bc.dirty h)
  empty := fun h => (ab.empty (bc.isEmpty_eq.trans h)).trans (bc.empty h)

theorem of_dirty (isAlive : a.isAlive = b.isAlive) (nonce : a.nonce = b.nonce)
    (balance : a.balance = b.balance) (code : a.code = b.code) (storage : a.storage = b.storage)
    (left : a.isUnchanged = false) (right : b.isUnchanged = false) : StandsFor a b :=
  ⟨isAlive, nonce, balance, code, storage, fun _ => left, fun _ => left.trans right.symm⟩

section

variable (h : StandsFor a b)
include h

theorem unchanged (mark : a.isUnchanged = true) : b.isUnchanged = true := by
  by_contra changed
  have dirty := h.dirty (by simpa using changed)
  rw [mark] at dirty
  cases dirty

theorem addBalance (value : U256) :
    StandsFor (a.addBalance value) (b.addBalance value) :=
  of_dirty h.isAlive h.nonce (congrArg (· + value) h.balance) h.code h.storage rfl rfl

theorem setNonce (nonce : U256) :
    StandsFor (a.setNonce nonce) (b.setNonce nonce) :=
  of_dirty h.isAlive rfl h.balance h.code h.storage rfl rfl

theorem setStorage (key value : U256) :
    StandsFor (a.setStorage key value) (b.setStorage key value) := by
  refine of_dirty h.isAlive h.nonce h.balance h.code ?_ rfl rfl
  rw [storage_setStorage, storage_setStorage, h.storage]

/-- Resetting code needs the original to be dirty: emptying it could otherwise expose a change
mark that the relation does not track. -/
theorem resetCode (dirty : b.isUnchanged = false) :
    StandsFor a.resetCode b.resetCode :=
  of_dirty h.isAlive h.nonce h.balance rfl h.storage (h.dirty dirty) dirty

theorem untouch : StandsFor a.untouch b.untouch :=
  ⟨h.isAlive, h.nonce, h.balance, h.code, h.storage, (fun marked => nomatch marked),
    fun _ => rfl⟩

theorem toRecord_eq : a.toRecord = b.toRecord := by
  simp only [Account.toRecord, h.nonce, h.balance, h.code, h.storage]

end

end StandsFor
end Account
end Artax
