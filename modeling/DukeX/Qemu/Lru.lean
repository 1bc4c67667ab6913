import Mathlib

/-!
# The LRU cache

`include/qemu/lru.h`.
-/

namespace DukeX.Qemu

open Function (update)

def lruNumBins : Nat := 2 ^ 16

structure Lru (N Key : Type) where
  global : List N
  bins : Nat → List N
  numUsed : Int
  numFree : Int
  hash : N → UInt64
  inUse : N → Bool
  key : N → Key

section Code

variable {N Key : Type} [DecidableEq N]

def lruHashToBin (hash : UInt64) : Nat := hash.toNat % lruNumBins

def lruGetNodeBin (lru : Lru N Key) (node : N) : Nat := lruHashToBin (lru.hash node)

def lruAddFree (lru : Lru N Key) (node : N) : Option (Lru N Key) :=
  if node ∈ lru.global then none
  else some { lru with
    inUse := update lru.inUse node false
    global := lru.global ++ [node]
    numFree := lru.numFree + 1 }

def lruEvictNode (lru : Lru N Key) (node : N) : Lru N Key :=
  if lru.inUse node then
    let bin := lruGetNodeBin lru node
    { lru with
      bins := update lru.bins bin ((lru.bins bin).erase node)
      inUse := update lru.inUse node false
      numUsed := lru.numUsed - 1
      numFree := lru.numFree + 1 }
  else lru

def lruTryEvictOne (lru : Lru N Key) (preNodeEvict : N → Bool) : Option N × Lru N Key :=
  match lru.global.reverse.find? fun node => lru.inUse node && preNodeEvict node with
  | some found => (some found, lruEvictNode lru found)
  | none => (none, lru)

def lruEvictOne (lru : Lru N Key) (preNodeEvict : N → Bool) : Option (N × Lru N Key) :=
  match lruTryEvictOne lru preNodeEvict with
  | (some found, lru) => some (found, lru)
  | (none, _) => none

def lruGetOneFree (lru : Lru N Key) (preNodeEvict : N → Bool) : Option (N × Lru N Key) :=
  match lru.global.reverse.find? fun node => !lru.inUse node with
  | some found => some (found, lru)
  | none => lruEvictOne lru preNodeEvict

def linkFirst (lru : Lru N Key) (found : N) (bin : Nat) : Lru N Key :=
  { lru with
    global := found :: lru.global.erase found
    bins := update lru.bins bin (found :: lru.bins bin)
    inUse := update lru.inUse found true }

def initNode (lru : Lru N Key) (found : N) (hash : UInt64) (key : Key) : Lru N Key :=
  { lru with
    hash := update lru.hash found hash
    key := update lru.key found key
    numUsed := lru.numUsed + 1
    numFree := lru.numFree - 1 }

variable [Setoid Key] [DecidableRel ((· ≈ ·) : Key → Key → Prop)]

def lruFind (lru : Lru N Key) (hash : UInt64) (key : Key) : Option N :=
  (lru.bins (lruHashToBin hash)).find? fun iter => lru.hash iter = hash ∧ lru.key iter ≈ key

def lruLookup (lru : Lru N Key) (hash : UInt64) (key : Key) (preNodeEvict : N → Bool) :
    Option (N × Lru N Key) :=
  let bin := lruHashToBin hash
  match lruFind lru hash key with
  | some found =>
    let unlinked := { lru with bins := update lru.bins bin ((lru.bins bin).erase found) }
    some (found, linkFirst unlinked found bin)
  | none => do
    let (found, lru) ← lruGetOneFree lru preNodeEvict
    return (found, linkFirst (initNode lru found hash key) found bin)

def flushNode (preNodeEvict : N → Bool) (lru : Lru N Key) (iter : N) : Lru N Key :=
  if preNodeEvict iter then
    let lru := lruEvictNode lru iter
    { lru with global := lru.global.erase iter ++ [iter] }
  else lru

def lruFlush (lru : Lru N Key) (preNodeEvict : N → Bool) : Lru N Key :=
  (List.range lruNumBins).foldl
    (fun lru bin => (lru.bins bin).foldl (flushNode preNodeEvict) lru) lru

def lruVisitActive {S : Type} (lru : Lru N Key) (visitor : S → N → S) (state : S) : S :=
  (List.range lruNumBins).foldl (fun st bin => (lru.bins bin).foldl visitor st) state

end Code

inductive Op (N Key : Type) where
  | addFree (node : N)
  | lookup (hash : UInt64) (key : Key) (preNodeEvict : N → Bool)
  | tryEvictOne (preNodeEvict : N → Bool)
  | evictOne (preNodeEvict : N → Bool)
  | flush (preNodeEvict : N → Bool)

structure History (N Key : Type) where
  lru : Lru N Key
  added : List N
  returned : List N

section Histories

variable {N Key : Type} [DecidableEq N] [Setoid Key] [DecidableRel ((· ≈ ·) : Key → Key → Prop)]

/-- `none` where an assertion fails or a node is linked twice. -/
def History.step (h : History N Key) : Op N Key → Option (History N Key)
  | .addFree node => do
    let lru ← lruAddFree h.lru node
    return { h with lru := lru, added := node :: h.added }
  | .lookup hash key preNodeEvict => do
    let (found, lru) ← lruLookup h.lru hash key preNodeEvict
    return { h with lru := lru, returned := found :: h.returned }
  | .tryEvictOne preNodeEvict => some { h with lru := (lruTryEvictOne h.lru preNodeEvict).2 }
  | .evictOne preNodeEvict => do
    let (_, lru) ← lruEvictOne h.lru preNodeEvict
    return { h with lru := lru }
  | .flush preNodeEvict => some { h with lru := lruFlush h.lru preNodeEvict }

def History.init (hash : N → UInt64) (inUse : N → Bool) (key : N → Key) : History N Key where
  lru :=
    { global := [], bins := fun _ => [], numUsed := 0, numFree := 0, hash := hash, inUse := inUse
      key := key }
  added := []
  returned := []

end Histories

end DukeX.Qemu
