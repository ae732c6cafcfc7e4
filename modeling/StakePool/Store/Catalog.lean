/-!
# Catalogs

A `Catalog κ ν` keeps a value for each of finitely many keys, in the order in which the keys came. The lemmas
say what `get?` finds, also after `insert`.
-/

namespace StakePool

/-- Values under keys, no key twice. -/
structure Catalog (κ ν : Type) where
  entries : List (κ × ν)
  nodup : (entries.map Prod.fst).Nodup

namespace Catalog

variable {κ ν : Type} [DecidableEq κ]

/-- The list with `v` under `k`: in the place of what `k` had, or else at the end. -/
def put (k : κ) (v : ν) : List (κ × ν) → List (κ × ν)
  | [] => [(k, v)]
  | e :: rest => if e.1 = k then (k, v) :: rest else e :: put k v rest

theorem mem_map_fst_put {k x : κ} {v : ν} {entries : List (κ × ν)} :
    x ∈ (put k v entries).map Prod.fst ↔ x = k ∨ x ∈ entries.map Prod.fst := by
  induction entries with
  | nil => simp [put]
  | cons e rest ih =>
    rw [put]
    split
    · rename_i h
      simp [← h]
    · rw [List.map_cons, List.mem_cons, ih, List.map_cons, List.mem_cons]
      exact or_left_comm

theorem map_fst_put (k : κ) (v : ν) (entries : List (κ × ν)) :
    (put k v entries).map Prod.fst =
      if k ∈ entries.map Prod.fst then entries.map Prod.fst else entries.map Prod.fst ++ [k] := by
  induction entries with
  | nil => rfl
  | cons e rest ih =>
    rw [put]
    split
    · rename_i h
      simp [← h]
    · rename_i h
      have first : k ≠ e.1 := Ne.symm h
      simp only [List.map_cons, ih, List.mem_cons, first, false_or]
      split
      · rfl
      · rfl

theorem nodup_put {k : κ} {v : ν} {entries : List (κ × ν)} (h : (entries.map Prod.fst).Nodup) :
    ((put k v entries).map Prod.fst).Nodup := by
  induction entries with
  | nil => simp [put]
  | cons e rest ih =>
    rw [List.map_cons, List.nodup_cons] at h
    rw [put]
    split
    · rename_i he
      rw [List.map_cons, List.nodup_cons, ← he]
      exact h
    · rename_i he
      rw [List.map_cons, List.nodup_cons, mem_map_fst_put]
      exact ⟨fun hx => hx.elim he h.1, ih h.2⟩

def empty : Catalog κ ν := ⟨[], List.nodup_nil⟩

instance : Inhabited (Catalog κ ν) := ⟨⟨[], List.nodup_nil⟩⟩

def get? (c : Catalog κ ν) (k : κ) : Option ν := (c.entries.find? fun e => e.1 == k).map Prod.snd

def insert (c : Catalog κ ν) (k : κ) (v : ν) : Catalog κ ν := ⟨put k v c.entries, nodup_put c.nodup⟩

def keys (c : Catalog κ ν) : List κ := c.entries.map Prod.fst

def size (c : Catalog κ ν) : Nat := c.entries.length

def isEmpty (c : Catalog κ ν) : Bool := c.entries.isEmpty

/-- The catalog of a list of pairs, of which a later one replaces an earlier one under the same key. -/
def ofList (pairs : List (κ × ν)) : Catalog κ ν := pairs.foldl (fun c e => c.insert e.1 e.2) empty

theorem find?_put_self (k : κ) (v : ν) (entries : List (κ × ν)) :
    (put k v entries).find? (fun e => e.1 == k) = some (k, v) := by
  induction entries with
  | nil => simp [put]
  | cons e rest ih =>
    rw [put]
    split
    · simp
    · rename_i h
      rw [List.find?_cons_of_neg (by simpa using h), ih]

theorem find?_put_of_ne {k x : κ} (h : x ≠ k) (v : ν) (entries : List (κ × ν)) :
    (put k v entries).find? (fun e => e.1 == x) = entries.find? (fun e => e.1 == x) := by
  induction entries with
  | nil => simp [put, Ne.symm h]
  | cons e rest ih =>
    rw [put]
    split
    · rename_i he
      rw [List.find?_cons_of_neg (by simpa using Ne.symm h), List.find?_cons_of_neg (by simpa [he] using Ne.symm h)]
    · rw [List.find?_cons, List.find?_cons, ih]

@[simp] theorem get?_insert_self (c : Catalog κ ν) (k : κ) (v : ν) : (c.insert k v).get? k = some v := by
  rw [get?, insert, find?_put_self, Option.map_some]

theorem get?_insert_of_ne (c : Catalog κ ν) {k x : κ} (h : x ≠ k) (v : ν) : (c.insert k v).get? x = c.get? x := by
  rw [get?, insert, find?_put_of_ne h, get?]

theorem find?_eq_some_iff {k : κ} {e : κ × ν} {entries : List (κ × ν)} (h : (entries.map Prod.fst).Nodup) :
    entries.find? (fun e => e.1 == k) = some e ↔ e ∈ entries ∧ e.1 = k := by
  induction entries with
  | nil => simp
  | cons first rest ih =>
    rw [List.map_cons, List.nodup_cons] at h
    rw [List.mem_cons]
    by_cases same : first.1 = k
    · rw [List.find?_cons_of_pos (by simpa using same), Option.some_inj]
      constructor
      · rintro rfl
        exact ⟨.inl rfl, same⟩
      · rintro ⟨rfl | later, key⟩
        · rfl
        · exact absurd (List.mem_map_of_mem later) (key.trans same.symm ▸ h.1)
    · rw [List.find?_cons_of_neg (by simpa using same), ih h.2]
      constructor
      · exact fun found => ⟨.inr found.1, found.2⟩
      · rintro ⟨rfl | later, key⟩
        · exact absurd key same
        · exact ⟨later, key⟩

theorem get?_eq_some_iff {c : Catalog κ ν} {k : κ} {v : ν} : c.get? k = some v ↔ (k, v) ∈ c.entries := by
  rw [get?, Option.map_eq_some_iff]
  constructor
  · rintro ⟨⟨k', v'⟩, found, rfl⟩
    obtain ⟨member, rfl⟩ := (find?_eq_some_iff c.nodup).mp found
    exact member
  · exact fun member => ⟨(k, v), (find?_eq_some_iff c.nodup).mpr ⟨member, rfl⟩, rfl⟩

theorem get?_eq_none_iff {c : Catalog κ ν} {k : κ} : c.get? k = none ↔ k ∉ c.keys := by
  rw [get?, Option.map_eq_none_iff, List.find?_eq_none, keys, List.mem_map]
  constructor
  · rintro none ⟨e, member, same⟩
    exact none e member (by simpa using same)
  · intro absent e member same
    exact absent ⟨e, member, by simpa using same⟩

theorem keys_insert (c : Catalog κ ν) (k : κ) (v : ν) :
    (c.insert k v).keys = if k ∈ c.keys then c.keys else c.keys ++ [k] :=
  map_fst_put k v c.entries

theorem keys_insert_of_get? {c : Catalog κ ν} {k : κ} {old : ν} (held : c.get? k = some old) (new : ν) :
    (c.insert k new).keys = c.keys := by
  rw [keys_insert, if_pos]
  apply Decidable.byContradiction
  intro absent
  rw [get?_eq_none_iff.mpr absent] at held
  cases held

end Catalog

end StakePool
