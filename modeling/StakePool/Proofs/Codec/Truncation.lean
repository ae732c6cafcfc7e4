import StakePool.Proofs.Codec.RoundTrip

/-!
# Byte strings that are cut off or go on

What a reader made of some bytes it makes of them whatever follows, and where they are cut off it reports how many
bytes there are and that more are needed: `Read.Reads`. Steps that have this property compose (`local_of_branches`),
so every format has it (`Format.local_read`), and `Format.decodes_by_its_own_bytes` states it for whole byte strings.
-/

namespace StakePool

namespace Read

variable {α β : Type}

/-- At `offset` the step reads `a` from `passed`, whatever follows, and asks for more where `passed` is cut off. -/
structure Reads (x : Read α) (offset : Nat) (passed : Bytes) (a : α) : Prop where
  whole : ∀ rest, x ⟨offset, passed ++ rest⟩ = .ok a ⟨offset + passed.length, rest⟩
  cut : ∀ k < passed.length, ∃ expected last,
    x ⟨offset, passed.take k⟩ = .error (.sizeMismatch expected (offset + k)) last ∧
      offset + k < expected ∧ expected ≤ offset + passed.length

/-- Whatever a step reads, it reads from the bytes that it passes and from no others. -/
def Local (x : Read α) : Prop :=
  ∀ ⦃r r' : Reader⦄ ⦃a : α⦄, x r = .ok a r' →
    ∃ passed, r.rest = passed ++ r'.rest ∧ r'.offset = r.offset + passed.length ∧ x.Reads r.offset passed a

/-! ### Single steps -/

theorem reads_nil {x : Read α} {offset : Nat} {a : α} (read : ∀ rest, x ⟨offset, rest⟩ = .ok a ⟨offset, rest⟩) :
    x.Reads offset [] a where
  whole := read
  cut k small := absurd small (Nat.not_lt_zero k)

theorem local_pure (a : α) : Local (pure a) := by
  intro r r' b read
  obtain ⟨rfl, rfl⟩ := EStateM.Result.ok.inj read
  exact ⟨[], rfl, rfl, reads_nil fun _ => rfl⟩

theorem local_of_error {x : Read α} (refused : ∀ r, ∃ fault r', x r = .error fault r') : Local x := by
  intro r r' a read
  obtain ⟨fault, last, failed⟩ := refused r
  cases failed.symm.trans read

theorem bound_of_take {n : Nat} {r r' : Reader} {bytes : Bytes} (read : take n r = .ok bytes r') :
    r.offset + n < addressLimit := by
  unfold take at read
  split at read
  · cases read
  · omega

theorem reads_take {bytes : Bytes} {n offset : Nat} (length : bytes.length = n) (bound : offset + n < addressLimit) :
    (take n).Reads offset bytes bytes where
  whole rest := by rw [take_append length bound, length]
  cut k small := by
    have cutLength : (bytes.take k).length = k := List.length_take_of_le (Nat.le_of_lt small)
    have failed := take_of_short (r := ⟨offset, bytes.take k⟩) bound (by show (bytes.take k).length < n; omega)
    rw [Reader.size, Reader.remaining, cutLength] at failed
    exact ⟨offset + n, _, failed, by omega, by omega⟩

theorem local_take (n : Nat) : Local (take n) := by
  intro r r' bytes read
  have bound := bound_of_take read
  obtain ⟨taken, length, rfl⟩ := take_eq_ok read
  refine ⟨bytes, ?_, by rw [length], reads_take length bound⟩
  rw [taken, List.take_append_drop]

/-! ### One step after the other -/

/-- A step that begins as `x` does and goes on as `f` where `x` found `a`. -/
theorem reads_append {x : Read α} {y f : Read β} {offset : Nat} {front back : Bytes} {a : α} {b : β}
    (failed : ∀ {r r' fault}, x r = .error fault r' → y r = .error fault r')
    (opened : ∀ {r r'}, r.offset = offset → x r = .ok a r' → y r = f r')
    (first : x.Reads offset front a) (second : f.Reads (offset + front.length) back b) :
    y.Reads offset (front ++ back) b where
  whole rest := by
    rw [List.append_assoc, opened rfl (first.whole _), second.whole, List.length_append, Nat.add_assoc]
  cut k small := by
    rw [List.length_append] at small ⊢
    rcases Nat.lt_or_ge k front.length with early | late
    · obtain ⟨expected, last, refused, more, most⟩ := first.cut k early
      rw [List.take_append_of_le_length (Nat.le_of_lt early)]
      exact ⟨expected, last, failed refused, more, by omega⟩
    · obtain ⟨expected, last, refused, more, most⟩ := second.cut (k - front.length) (by omega)
      have position : offset + front.length + (k - front.length) = offset + k := by omega
      rw [position] at refused more
      rw [List.take_append, List.take_of_length_le late, opened rfl (first.whole _)]
      exact ⟨expected, last, refused, more, by omega⟩

/-- What follows `x` may depend on what `x` found and on where it stood. -/
theorem local_of_branches {x : Read α} {y : Read β} (first : Local x)
    (failed : ∀ {r r' fault}, x r = .error fault r' → y r = .error fault r')
    (branch : ∀ {r r' a}, x r = .ok a r' →
      ∃ f : Read β, Local f ∧ ∀ {s s'}, s.offset = r.offset → x s = .ok a s' → y s = f s') :
    Local y := by
  intro r r' b read
  cases step : x r with
  | error fault last =>
    rw [failed step] at read
    cases read
  | ok a middle =>
    obtain ⟨f, second, opened⟩ := branch step
    rw [opened rfl step] at read
    obtain ⟨front, held, moved, reads⟩ := first step
    obtain ⟨back, heldToo, movedToo, readsToo⟩ := second read
    rw [moved] at movedToo readsToo
    refine ⟨front ++ back, ?_, ?_, reads_append failed opened reads readsToo⟩
    · rw [held, heldToo, List.append_assoc]
    · rw [movedToo, List.length_append, Nat.add_assoc]

theorem local_bind {x : Read α} {f : α → Read β} (first : Local x) (second : ∀ a, Local (f a)) : Local (x >>= f) :=
  local_of_branches first (fun failed => bind_of_error failed f)
    fun {_ _ a} _ => ⟨f a, second a, fun _ found => bind_of_ok found⟩

/-! ### Words, blocks and bytes of an enumeration -/

theorem local_skip (n : Nat) : Local (skip n) := local_bind (local_take n) fun _ => local_pure ()

theorem local_word (w : Word α) : Local (word w) := local_bind (local_take w.width) fun _ => local_pure _

theorem local_block (n : Nat) : Local (block n) :=
  local_of_branches (local_take n) block_of_error
    fun taken => ⟨pure ⟨_, (take_eq_ok taken).2.1⟩, local_pure _, fun _ found => block_of_ok found⟩

theorem local_code (field : String) (c : ByteCode α) : Local (code field c) := by
  refine local_of_branches (local_word Word.u8) code_of_error fun {r _ byte} _ => ?_
  cases known : c.ofByte? byte with
  | some a => exact ⟨pure a, local_pure a, fun _ found => code_of_known found known⟩
  | none =>
    refine ⟨fun s => .error (.fieldOutOfRange r.offset field byte.toUInt32) s, ?_, fun here found => ?_⟩
    · exact local_of_error fun s => ⟨_, s, rfl⟩
    · exact here ▸ code_of_unknown found known

end Read

theorem Presence.local_read (presence : Presence) : Read.Local presence.read := by
  cases presence with
  | byte => exact Read.local_bind (Read.local_word _) fun _ => Read.local_pure _
  | word => exact Read.local_word _

/-! ### Fixed layouts -/

namespace Layout

variable {α : Type}

theorem local_read (l : Layout α) : Read.Local l.read := by
  induction l with
  | empty => exact Read.local_pure ()
  | word w => exact Read.local_word w
  | code field c => exact Read.local_code field c
  | block n => exact Read.local_block n
  | optional presence payload ih =>
    refine Read.local_of_branches presence.local_read read_optional_of_error fun {r _ mark} _ => ?_
    by_cases absent : mark = 0
    · subst absent
      exact ⟨_, Read.local_bind (Read.local_skip _) fun _ => Read.local_pure _, fun _ => read_optional_absent⟩
    by_cases present : mark = 1
    · subst present
      exact ⟨_, Read.local_bind ih fun _ => Read.local_pure _, fun _ => read_optional_present⟩
    · refine ⟨fun s => .error (.fieldOutOfRange r.offset presence.field mark) s, ?_, fun here found => ?_⟩
      · exact Read.local_of_error fun s => ⟨_, s, rfl⟩
      · exact here ▸ read_optional_refused found absent present
  | pair first second ihFirst ihSecond =>
    exact Read.local_bind ihFirst fun _ => Read.local_bind ihSecond fun _ => Read.local_pure _
  | via bijection inner ih => exact Read.local_bind ih fun _ => Read.local_pure _

/-! ### Sequences -/

theorem local_readMany (l : Layout α) (count : Nat) (done : List α) : Read.Local (l.readMany count done) := by
  induction count generalizing done with
  | zero => exact Read.local_pure done.reverse
  | succ count ih =>
    exact Read.local_of_branches l.local_read (readMany_of_error · count done)
      fun {_ _ a} _ => ⟨l.readMany count (a :: done), ih (a :: done), fun _ read => readMany_of_ok read count done⟩

theorem readCounted_eq_ok {l : Layout α} {count : UInt32} {r r' : Reader} {items : List α}
    (read : l.readCounted count r = .ok items r') :
    count.toNat * l.size < addressLimit ∧ l.readMany count.toNat [] r = .ok items r' := by
  unfold readCounted at read
  split at read
  · cases read
  split at read
  · split at read
    · cases read
    · cases read
  · exact ⟨by omega, read⟩

theorem local_readCounted (l : Layout α) (count : UInt32) : Read.Local (l.readCounted count) := by
  intro r r' items read
  obtain ⟨bound, readItems⟩ := readCounted_eq_ok read
  obtain ⟨passed, held, moved, reads⟩ := l.local_readMany count.toNat [] readItems
  -- The items fill as many bytes as the count asks for, so the check looks at no other bytes.
  have steps := passed_of_readMany readItems
  have filled : passed.length = count.toNat * l.size := by
    have := steps.offset_eq
    omega
  refine ⟨passed, held, moved, ?_, ?_⟩
  · intro rest
    have enough : count.toNat * l.size ≤ Reader.remaining ⟨r.offset, passed ++ rest⟩ := by
      rw [Reader.remaining, List.length_append]
      omega
    rw [readCounted_of_fits bound enough]
    exact reads.whole rest
  · intro k small
    have length : (passed.take k).length = k := List.length_take_of_le (Nat.le_of_lt small)
    have few : Reader.remaining ⟨r.offset, passed.take k⟩ < count.toNat * l.size := by
      rw [Reader.remaining, length]
      omega
    have room := steps.offset_lt (by omega)
    rw [steps.offset_eq] at room
    have failed := readCounted_of_short (r := ⟨r.offset, passed.take k⟩) room few
    rw [Reader.size, Reader.remaining, length] at failed
    exact ⟨r.offset + count.toNat * l.size, _, failed, by omega, by omega⟩

end Layout

/-! ### Formats -/

namespace Format

variable {α : Type}

theorem local_read (f : Format α) : Read.Local f.read := by
  induction f with
  | fixed l => exact l.local_read
  | sequence item =>
    exact Read.local_of_branches (Read.local_word Word.u32) Layout.readSequence_of_error
      fun {_ _ count} _ => ⟨_, item.local_readCounted count, fun _ => Layout.readSequence_of_counted⟩
  | pair first second ihFirst ihSecond =>
    exact Read.local_bind ihFirst fun _ => Read.local_bind ihSecond fun _ => Read.local_pure _
  | variant c format ih =>
    refine Read.local_of_branches (Read.local_word Word.u8) read_variant_of_error fun {r _ byte} _ => ?_
    cases known : c.ofByte? byte with
    | some i =>
      exact ⟨_, Read.local_bind (ih i) fun _ => Read.local_pure _, fun _ found => read_variant_of_known found known⟩
    | none =>
      refine ⟨fun s => .error (.unknownVariant r.offset byte) s, ?_, fun here found => ?_⟩
      · exact Read.local_of_error fun s => ⟨_, s, rfl⟩
      · exact here ▸ read_variant_of_unknown found known
  | via bijection inner ih => exact Read.local_bind ih fun _ => Read.local_pure _

theorem decodePrefix_eq_ok_iff_read {f : Format α} {bytes : Bytes} {a : α} :
    f.decodePrefix bytes = .ok a ↔ ∃ r, f.read (.ofBytes bytes) = .ok a r := by
  unfold decodePrefix
  cases f.read (.ofBytes bytes) with
  | ok b r => simp
  | error fault r => simp

theorem decodePrefix_of_error {f : Format α} {bytes : Bytes} {fault : Fault} {r : Reader}
    (failed : f.read (.ofBytes bytes) = .error fault r) : f.decodePrefix bytes = .error fault := by
  simp only [decodePrefix, failed]

/-- A value takes the same bytes wherever it is decoded from. What follows them makes no difference, and where they are
cut off the answer is that more are needed, never another value and never a bad field. -/
theorem decodes_by_its_own_bytes (f : Format α) {bytes : Bytes} {a : α} (decoded : f.decodePrefix bytes = .ok a) :
    ∃ n ≤ bytes.length, f.read (.ofBytes bytes) = .ok a (.atOffset bytes n) ∧
      (∀ other, other.take n = bytes.take n →
        f.decodePrefix other = .ok a ∧ f.read (.ofBytes other) = .ok a (.atOffset other n)) ∧
      ∀ k < n, ∃ expected, f.decodePrefix (bytes.take k) = .error (.sizeMismatch expected k) ∧
        k < expected ∧ expected ≤ n := by
  obtain ⟨r, read⟩ := decodePrefix_eq_ok_iff_read.mp decoded
  obtain ⟨passed, held, moved, whole, cut⟩ := f.local_read read
  obtain rfl : bytes = passed ++ r.rest := held
  have front : (passed ++ r.rest).take passed.length = passed := List.take_left
  have readsOn (rest : Bytes) :
      f.read (.ofBytes (passed ++ rest)) = .ok a (.atOffset (passed ++ rest) passed.length) := by
    rw [Reader.atOffset_append]
    simpa [Reader.ofBytes] using whole rest
  refine ⟨passed.length, ?_, readsOn r.rest, fun other same => ?_, fun k small => ?_⟩
  · rw [List.length_append]
    exact Nat.le_add_right _ _
  · rw [front] at same
    rw [← List.take_append_drop passed.length other, same]
    exact ⟨decodePrefix_eq_ok_iff_read.mpr ⟨_, readsOn _⟩, readsOn _⟩
  · obtain ⟨expected, last, failed, more, most⟩ := cut k small
    simp only [Reader.ofBytes, Nat.zero_add] at failed more most
    rw [List.take_append_of_le_length (Nat.le_of_lt small)]
    exact ⟨expected, decodePrefix_of_error failed, more, most⟩

/-- An absent item whose space is not empty, cut off within the item behind it. -/
theorem decodes_by_its_own_bytes_absent :
    let f : Format (List (Option UInt8)) := .sequence (.option .u8)
    let bytes : Bytes := [2, 0, 0, 0, 0, 9, 1, 5, 7]
    f.decodePrefix bytes = .ok [none, some 5] ∧ f.decodePrefix [2, 0, 0, 0, 0, 9, 1, 5] = .ok [none, some 5] ∧
      ∃ expected, f.decodePrefix (bytes.take 7) = .error (.sizeMismatch expected 7) ∧ 7 < expected ∧ expected ≤ 8 := by
  intro f bytes
  have decoded : f.decodePrefix bytes = .ok [none, some 5] := rfl
  obtain ⟨n, -, read, longer, shorter⟩ := decodes_by_its_own_bytes f decoded
  have passed : f.read (.ofBytes bytes) = .ok [none, some 5] ⟨8, [7]⟩ := rfl
  obtain ⟨-, stopped⟩ := EStateM.Result.ok.inj (read.symm.trans passed)
  obtain rfl : n = 8 := congrArg Reader.offset stopped
  exact ⟨decoded, (longer _ rfl).1, shorter 7 (by decide)⟩

end Format

end StakePool
