/-! # Results that may be errors

When a result is obtained, and what it is, through the steps that computations in `Except` are
made of.
-/
namespace Stencil

theorem bind_eq_ok {r : Except ε α} {f : α → Except ε β} {b : β} :
    (r >>= f) = .ok b ↔ ∃ a, r = .ok a ∧ f a = .ok b := by
  cases r <;> simp [bind,Except.bind]

theorem map_eq_ok {r : Except ε α} {f : α → β} {b : β} :
    r.map f = .ok b ↔ ∃ a, r = .ok a ∧ f a = b := by
  cases r <;> simp [Except.map]

theorem mapError_eq_ok {r : Except ε α} {f : ε → ε'} {a : α} :
    r.mapError f = .ok a ↔ r = .ok a := by
  cases r with
  | error cause => exact ⟨nofun,nofun⟩
  | ok b => constructor <;> (rintro ⟨⟩; rfl)

theorem mapError_eq_error {r : Except ε α} {f : ε → ε'} {e : ε'} :
    r.mapError f = .error e ↔ ∃ cause, r = .error cause ∧ f cause = e := by
  cases r with
  | error cause =>
    constructor
    · rintro ⟨⟩
      exact ⟨cause,rfl,rfl⟩
    · rintro ⟨_,⟨⟩,rfl⟩
      rfl
  | ok b => exact ⟨nofun,nofun⟩

theorem isOk_iff {r : Except ε α} : r.isOk = true ↔ ∃ a, r = .ok a := by
  cases r <;> simp [Except.isOk,Except.toBool]

theorem not_isOk_iff {r : Except ε α} : ¬r.isOk = true ↔ ∃ cause, r = .error cause := by
  cases r <;> simp [Except.isOk,Except.toBool]

theorem isOk_map (r : Except ε α) (f : α → β) : (r.map f).isOk = r.isOk := by
  cases r <;> rfl

theorem toOption_of_not_isOk {r : Except ε α} (h : r.isOk = false) : r.toOption = none := by
  cases r with
  | error => rfl
  | ok a => cases h

end Stencil
