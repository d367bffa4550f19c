import SourceStepper.Evm.Address

namespace SourceStepper.Evm

structure Account where
  nonce : Nat := 0
  balance : Nat := 0
  code : ByteArray := .empty
  storage : OrderedMap Word Word := .empty

/-- Whether an account counts as absent. -/
def Account.isEmpty (a : Account) : Bool := a.nonce = 0 && a.balance = 0 && a.code.isEmpty

abbrev World := OrderedMap Address Account

structure Ledger where
  world : World
  /-- The addresses that have been touched. -/
  warm : List Address := []
  /-- The storage slots that have been touched. -/
  warmSlots : List (Address × Word) := []
  /-- The storage that ends with the transaction. -/
  transient : OrderedMap (List Nat) Word := .empty
  /-- The contracts that the transaction has created. -/
  created : List Address := []
  /-- The contracts that end with the transaction. -/
  destroyed : List Address := []

namespace Ledger

def account (l : Ledger) (a : Address) : Account := (l.world.get? a).getD {}

def update (l : Ledger) (a : Address) (f : Account → Account) : Ledger :=
  { l with world := l.world.insert a (f (l.account a)) }

/-- Touch an address, and tell whether it is the first time. -/
def touch (l : Ledger) (a : Address) : Bool × Ledger :=
  if l.warm.contains a then (false, l) else (true, { l with warm := a :: l.warm })

def touchSlot (l : Ledger) (a : Address) (slot : Word) : Bool × Ledger :=
  if l.warmSlots.contains (a, slot) then (false, l)
  else (true, { l with warmSlots := (a, slot) :: l.warmSlots })

def load (l : Ledger) (a : Address) (slot : Word) : Word := ((l.account a).storage.get? slot).getD 0

def store (l : Ledger) (a : Address) (slot value : Word) : Ledger :=
  l.update a fun account => { account with storage := account.storage.insert slot value }

/-- The value in a slot of the storage that ends with the transaction. -/
def loadTransient (l : Ledger) (a : Address) (slot : Word) : Word :=
  (l.transient.get? [a.toNat, slot.toNat]).getD 0

def storeTransient (l : Ledger) (a : Address) (slot value : Word) : Ledger :=
  { l with transient := l.transient.insert [a.toNat, slot.toNat] value }

/-- Move an amount from one account to another; `none` if it is not there. -/
def transfer? (l : Ledger) (sender receiver : Address) (amount : Nat) : Option Ledger :=
  if (l.account sender).balance < amount then none
  else
    let l := l.update sender fun account => { account with balance := account.balance - amount }
    some (l.update receiver fun account => { account with balance := account.balance + amount })

def commit (l : Ledger) : World := l.destroyed.foldl OrderedMap.erase l.world

end Ledger

end SourceStepper.Evm
