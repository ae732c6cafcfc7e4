import Mathlib.Data.List.Forall2

/-!
# Steps that may fail

What it takes for two steps, one after the other, to succeed (`bind_eq_ok_iff`) or to fail (`bind_eq_error_iff`), and
the same for a step on every item of a list (`mapM_eq_ok_iff`, `mapM_eq_error_iff`).
-/

namespace StakePool

universe u

variable {ε α β : Type u} {x : Except ε α} {f : α → Except ε β}

theorem bind_eq_ok_iff {b : β} : x >>= f = .ok b ↔ ∃ a, x = .ok a ∧ f a = .ok b := by
  cases x with
  | error fault =>
    constructor
    · intro h
      cases h
    · rintro ⟨_, h, -⟩
      cases h
  | ok a =>
    constructor
    · intro h
      exact ⟨a, rfl, h⟩
    · rintro ⟨_, same, h⟩
      obtain rfl := Except.ok.inj same
      exact h

theorem bind_eq_error_iff {fault : ε} :
    x >>= f = .error fault ↔ x = .error fault ∨ ∃ a, x = .ok a ∧ f a = .error fault := by
  cases x with
  | error first =>
    constructor
    · intro h
      exact .inl (congrArg Except.error (Except.error.inj h))
    · rintro (h | ⟨_, h, -⟩)
      · exact congrArg Except.error (Except.error.inj h)
      · cases h
  | ok a =>
    constructor
    · intro h
      exact .inr ⟨a, rfl, h⟩
    · rintro (h | ⟨_, same, h⟩)
      · cases h
      · obtain rfl := Except.ok.inj same
        exact h

theorem map_eq_ok_iff {g : α → β} {b : β} : g <$> x = .ok b ↔ ∃ a, x = .ok a ∧ b = g a := by
  rw [map_eq_pure_bind, bind_eq_ok_iff]
  refine exists_congr fun a => and_congr_right fun _ => ?_
  exact ⟨fun same => (Except.ok.inj same).symm, fun same => congrArg Except.ok same.symm⟩

theorem map_eq_error_iff {g : α → β} {fault : ε} : g <$> x = .error fault ↔ x = .error fault := by
  rw [map_eq_pure_bind, bind_eq_error_iff]
  refine or_iff_left ?_
  rintro ⟨a, -, never⟩
  cases never

theorem mapError_eq_ok_iff {ε' : Type u} {f : ε → ε'} {a : α} : x.mapError f = .ok a ↔ x = .ok a := by
  cases x with
  | error fault =>
    constructor
    · intro h
      cases h
    · intro h
      cases h
  | ok b =>
    constructor
    · intro h
      exact congrArg Except.ok (Except.ok.inj h)
    · intro h
      exact congrArg Except.ok (Except.ok.inj h)

theorem mapError_eq_error_iff {ε' : Type u} {f : ε → ε'} {fault : ε'} :
    x.mapError f = .error fault ↔ ∃ first, x = .error first ∧ fault = f first := by
  cases x with
  | error first =>
    constructor
    · intro h
      exact ⟨first, rfl, (Except.error.inj h).symm⟩
    · rintro ⟨_, same, rfl⟩
      obtain rfl := Except.error.inj same
      rfl
  | ok a =>
    constructor
    · intro h
      cases h
    · rintro ⟨_, h, -⟩
      cases h

theorem toOption_eq_some_iff {a : α} : x.toOption = some a ↔ x = .ok a := by
  cases x with
  | error fault =>
    constructor
    · intro h
      cases h
    · intro h
      cases h
  | ok b =>
    constructor
    · intro h
      exact congrArg Except.ok (Option.some.inj h)
    · intro h
      exact congrArg some (Except.ok.inj h)

/-! ### Lists -/

theorem mapM_eq_ok_iff {items : List α} {results : List β} :
    items.mapM f = .ok results ↔ List.Forall₂ (fun a b => f a = .ok b) items results := by
  induction items generalizing results with
  | nil =>
    rw [List.mapM_nil, List.forall₂_nil_left_iff]
    constructor
    · intro h
      exact (Except.ok.inj h).symm
    · rintro rfl
      rfl
  | cons a items ih =>
    rw [List.mapM_cons, bind_eq_ok_iff, List.forall₂_cons_left_iff]
    constructor
    · rintro ⟨b, first, rest⟩
      obtain ⟨more, others, same⟩ := bind_eq_ok_iff.mp rest
      exact ⟨b, more, first, ih.mp others, (Except.ok.inj same).symm⟩
    · rintro ⟨b, more, first, others, rfl⟩
      exact ⟨b, first, bind_eq_ok_iff.mpr ⟨more, ih.mpr others, rfl⟩⟩

/-- The fault is that of the first item that has one. -/
theorem mapM_eq_error_iff {items : List α} {fault : ε} :
    items.mapM f = .error fault ↔
      ∃ before a after, items = before ++ a :: after ∧ (∀ c ∈ before, ∃ b, f c = .ok b) ∧ f a = .error fault := by
  induction items with
  | nil => simp [pure, Except.pure]
  | cons a items ih =>
    rw [List.mapM_cons, bind_eq_error_iff]
    constructor
    · rintro (first | ⟨b, here, rest⟩)
      · exact ⟨[], a, items, rfl, by simp, first⟩
      · rcases bind_eq_error_iff.mp rest with others | ⟨_, _, never⟩
        · obtain ⟨before, c, after, rfl, fine, failed⟩ := ih.mp others
          exact ⟨a :: before, c, after, rfl, List.forall_mem_cons.mpr ⟨⟨b, here⟩, fine⟩, failed⟩
        · cases never
    · rintro ⟨before, c, after, split, fine, failed⟩
      rcases List.cons_eq_append_iff.mp split with ⟨rfl, same⟩ | ⟨rest, rfl, rfl⟩
      · obtain ⟨rfl, rfl⟩ := List.cons.inj same
        exact .inl failed
      · obtain ⟨⟨b, here⟩, later⟩ := List.forall_mem_cons.mp fine
        exact .inr ⟨b, here, bind_eq_error_iff.mpr (.inl (ih.mpr ⟨rest, c, after, rfl, later, failed⟩))⟩

end StakePool
