import Mathlib.Init

/-!
# `Lib.Logged` — computations that log and may fail

A result that may be an error, beside the list of what was logged on the way to it. Unlike the result,
the log survives a failure. The rules say what a sequence of two such computations logs and returns.
-/

namespace Lib

/-- A result and what was logged before it. -/
structure Logged (ω ε α : Type) where
  log : List ω
  result : Except ε α

namespace Logged

variable {ω ε α β : Type}

/-- The second computation runs where the first has not failed. -/
def bind (x : Logged ω ε α) (f : α → Logged ω ε β) : Logged ω ε β :=
  match x.result with
  | .ok a    => { log := x.log ++ (f a).log, result := (f a).result }
  | .error e => { log := x.log, result := .error e }

instance : Monad (Logged ω ε) where
  pure a := { log := [], result := .ok a }
  bind := bind

/-- A computation that logs nothing. -/
def lift (x : Except ε α) : Logged ω ε α := { log := [], result := x }

/-- One item for the log. -/
def tell (e : ω) : Logged ω ε Unit := { log := [e], result := .ok () }

variable {x : Logged ω ε α} {f : α → Logged ω ε β} {a : α} {b : β} {e : ω}

theorem bind_of_ok (h : x.result = .ok a) :
    x >>= f = { log := x.log ++ (f a).log, result := (f a).result } := by
  show x.bind f = _
  rw [bind, h]

/-- What a sequence returns. -/
theorem result_bind_eq_ok :
    (x >>= f).result = .ok b ↔ ∃ a, x.result = .ok a ∧ (f a).result = .ok b := by
  show (x.bind f).result = _ ↔ _
  unfold bind
  cases h : x.result with
  | ok a =>
      constructor
      · intro hb
        exact ⟨a, rfl, hb⟩
      · rintro ⟨a', ha, hb⟩
        cases ha
        exact hb
  | error e =>
      constructor
      · intro hb
        cases hb
      · rintro ⟨a, ha, -⟩
        cases ha

/-- What a sequence logs. -/
theorem mem_log_bind :
    e ∈ (x >>= f).log ↔ e ∈ x.log ∨ ∃ a, x.result = .ok a ∧ e ∈ (f a).log := by
  show e ∈ (x.bind f).log ↔ _
  unfold bind
  cases h : x.result with
  | ok a =>
      rw [List.mem_append]
      constructor
      · rintro (hx | hf)
        · exact Or.inl hx
        · exact Or.inr ⟨a, rfl, hf⟩
      · rintro (hx | ⟨a', ha, hf⟩)
        · exact Or.inl hx
        · cases ha
          exact Or.inr hf
  | error e' =>
      constructor
      · exact Or.inl
      · rintro (hx | ⟨a, ha, -⟩)
        · exact hx
        · cases ha

/-- A computation that cannot fail and logs nothing is no step at all. -/
theorem lift_ok_bind (a : α) (f : α → Logged ω ε β) : (lift (.ok a) >>= f) = f a := by
  have hlift : (lift (.ok a) : Logged ω ε α).result = .ok a := rfl
  rw [bind_of_ok hlift]
  rfl

/-! ## A property of everything logged -/

/-- Everything logged has the property. -/
def Logs (P : ω → Prop) (x : Logged ω ε α) : Prop := ∀ e ∈ x.log, P e

variable {P : ω → Prop}

theorem logs_pure (a : α) : Logs P (pure a : Logged ω ε α) := by
  intro e he
  cases he

theorem logs_lift (x : Except ε α) : Logs P (lift x) := by
  intro e he
  cases he

theorem logs_tell (h : P e) : Logs P (tell e : Logged ω ε Unit) := by
  intro e' he'
  rw [List.mem_singleton.mp he']
  exact h

theorem Logs.bind (hx : Logs P x) (hf : ∀ a, Logs P (f a)) : Logs P (x >>= f) := by
  intro e he
  rcases mem_log_bind.mp he with he | ⟨a, -, he⟩
  · exact hx e he
  · exact hf a e he

end Logged
end Lib
