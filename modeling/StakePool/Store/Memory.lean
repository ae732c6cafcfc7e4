import StakePool.Store.Basic
import StakePool.Store.Catalog

/-!
# Accounts in memory

A `MemoryStore` is a catalog from keys to byte strings, so that `fetch` finds what was kept last.
-/

namespace StakePool

structure MemoryStore where
  accounts : Catalog Pubkey Bytes

namespace MemoryStore

def empty : MemoryStore := ⟨.empty⟩

def size (s : MemoryStore) : Nat := s.accounts.size

def isEmpty (s : MemoryStore) : Bool := s.accounts.isEmpty

instance : AccountStore MemoryStore where
  fetch s key := match s.accounts.get? key with
    | none => .error (.accountNotFound key)
    | some bytes => .ok bytes
  keep key bytes := modify fun s => ⟨s.accounts.insert key bytes⟩
  keys s := Pubkey.sort s.accounts.keys

end MemoryStore

end StakePool
