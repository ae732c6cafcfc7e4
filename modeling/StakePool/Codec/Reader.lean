import StakePool.Block
import StakePool.Fault

/-!
# Reading bytes

A `Reader` stands at an offset of a byte string. `Read.take` is the one step that moves it: it hands out the
next bytes or, when they run short, leaves the reader where it was (`take_eq_ok`).
-/

namespace StakePool

/-- A position in a byte string: how many bytes lie before it, and those that follow. -/
structure Reader where
  offset : Nat
  rest : Bytes
deriving DecidableEq

namespace Reader

def ofBytes (bytes : Bytes) : Reader := ⟨0, bytes⟩

def remaining (r : Reader) : Nat := r.rest.length

/-- The length of the whole byte string. -/
def size (r : Reader) : Nat := r.offset + r.remaining

end Reader

/-- A step of a reader: a value or a fault, and in both cases where the reader stands afterwards. -/
abbrev Read (α : Type) := EStateM Fault Reader α

namespace Read

def take (n : Nat) : Read Bytes := fun r =>
  if addressLimit ≤ r.offset + n then
    .error (.overflow .readerOffset) r
  else
    let taken := r.rest.take n
    if taken.length < n then
      .error (.sizeMismatch (r.offset + n) r.size) r
    else
      .ok taken ⟨r.offset + n, r.rest.drop n⟩

def skip (n : Nat) : Read Unit := do
  let _ ← take n

theorem take_eq_ok {n : Nat} {r r' : Reader} {bytes : Bytes} (h : take n r = .ok bytes r') :
    bytes = r.rest.take n ∧ bytes.length = n ∧ r' = ⟨r.offset + n, r.rest.drop n⟩ := by
  unfold take at h
  split at h
  · cases h
  · dsimp only at h
    split at h
    · cases h
    · rename_i _ hlen
      injection h with hb hr
      subst hb hr
      refine ⟨rfl, ?_, rfl⟩
      have := List.length_take_le n r.rest
      omega

def block (n : Nat) : Read (Block n) := fun r =>
  match h : take n r with
  | .ok bytes r' => .ok ⟨bytes, (take_eq_ok h).2.1⟩ r'
  | .error fault r' => .error fault r'

end Read

end StakePool
