/-
How an action comes apart.

A composed action does what its first part leads to (`bind_of_ok`,
`bind_of_error`). So it succeeds through successes of its parts
(`bind_ok`, `map_ok`) and fails through the failure of one of them
(`bind_error`, `map_error`). A pure action succeeds by doing nothing
(`pure_ok`). This holds of the actions of a scan and of those of a parse,
which are of one make.
-/
namespace ScriptTree

/-- An outcome on a fixed input can be computed and compared. -/
instance decidableEqResult {ε σ α : Type} [DecidableEq ε] [DecidableEq σ]
    [DecidableEq α] : DecidableEq (EStateM.Result ε σ α)
  | .ok a s, .ok b t =>
    decidable_of_decidable_of_iff (p := a = b ∧ s = t)
      ⟨fun h => by rw [h.1, h.2], fun h => by cases h; exact ⟨rfl, rfl⟩⟩
  | .error d s, .error e t =>
    decidable_of_decidable_of_iff (p := d = e ∧ s = t)
      ⟨fun h => by rw [h.1, h.2], fun h => by cases h; exact ⟨rfl, rfl⟩⟩
  | .ok _ _, .error _ _ => isFalse nofun
  | .error _ _, .ok _ _ => isFalse nofun

variable {ε σ α β : Type} {s s' : σ} {p : EStateM ε σ α} {a : α} {b : β}
  {e : ε}

theorem bind_of_ok {f : α → EStateM ε σ β} (h : p s = .ok a s') :
    (p >>= f) s = f a s' := by
  show EStateM.bind p f s = _
  unfold EStateM.bind
  rw [h]

theorem bind_of_error {f : α → EStateM ε σ β} (h : p s = .error e s') :
    (p >>= f) s = .error e s' := by
  show EStateM.bind p f s = _
  unfold EStateM.bind
  rw [h]

theorem bind_ok {f : α → EStateM ε σ β} :
    (p >>= f) s = .ok b s' ↔
      ∃ a s₁, p s = .ok a s₁ ∧ f a s₁ = .ok b s' := by
  cases hp : p s with
  | ok a s₁ =>
      rw [bind_of_ok hp]
      constructor
      · intro h
        exact ⟨a, s₁, rfl, h⟩
      · rintro ⟨_, _, ⟨⟩, h⟩
        exact h
  | error e s₁ => simp [bind_of_error hp]

theorem bind_error {f : α → EStateM ε σ β} :
    (p >>= f) s = .error e s' ↔
      p s = .error e s' ∨
        ∃ a s₁, p s = .ok a s₁ ∧ f a s₁ = .error e s' := by
  cases hp : p s with
  | ok a s₁ =>
      rw [bind_of_ok hp]
      constructor
      · intro h
        exact .inr ⟨a, s₁, rfl, h⟩
      · rintro (⟨⟨⟩⟩ | ⟨_, _, ⟨⟩, h⟩)
        exact h
  | error e' s₁ => simp [bind_of_error hp]

theorem map_ok {f : α → β} :
    (f <$> p) s = .ok b s' ↔ ∃ a, p s = .ok a s' ∧ f a = b := by
  show EStateM.map f p s = _ ↔ _
  unfold EStateM.map
  cases p s with
  | ok a s₁ =>
      constructor
      · rintro ⟨⟩
        exact ⟨a, rfl, rfl⟩
      · rintro ⟨_, ⟨⟩, rfl⟩
        rfl
  | error e s₁ => simp

theorem map_error {f : α → β} :
    (f <$> p) s = .error e s' ↔ p s = .error e s' := by
  show EStateM.map f p s = _ ↔ _
  unfold EStateM.map
  cases p s with
  | ok a s₁ => simp
  | error e' s₁ => simp

theorem pure_ok {a b : α} :
    (pure a : EStateM ε σ α) s = .ok b s' ↔ b = a ∧ s' = s := by
  show EStateM.Result.ok a s = _ ↔ _
  rw [EStateM.Result.ok.injEq]
  exact and_congr eq_comm eq_comm

end ScriptTree
