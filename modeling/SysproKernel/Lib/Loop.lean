/-!
# `Lib.Loop` — counted loops and the invariant rule

`forLoop n body s` is `for (i = 0; i < n; i++) s = body i s` in an arbitrary monad. The recursion peels
the *last* iteration, so a loop invariant indexed by the number of finished iterations is proved by
plain induction on `n`. `forLoop_ok` is the total-correctness rule for loops that may stop with an
error: every iteration succeeds and advances the invariant, so the loop succeeds and establishes it.
-/

namespace Lib.Loop

/-- `for (i = 0; i < n; i++) s = body i s`. -/
def forLoop {m : Type → Type} [Monad m] {σ : Type} : Nat → (Nat → σ → m σ) → σ → m σ
  | 0,     _,    s => pure s
  | n + 1, body, s => do
      let s ← forLoop n body s
      body n s

variable {ε α β σ : Type}

/-- Sequencing after a computation known to succeed. -/
theorem ok_bind (a : α) (f : α → Except ε β) : (Except.ok a >>= f) = f a := rfl

theorem bind_of_ok {x : Except ε α} {a : α} {f : α → Except ε β} (h : x = .ok a) :
    (x >>= f) = f a := by
  rw [h, ok_bind]

/-- **Loop rule.** If the invariant holds initially and every iteration succeeds and advances it, the
    loop succeeds and ends in a state satisfying it. -/
theorem forLoop_ok {n : Nat} {body : Nat → σ → Except ε σ} {s : σ} (Inv : Nat → σ → Prop)
    (hinit : Inv 0 s)
    (hstep : ∀ i s, i < n → Inv i s → ∃ s', body i s = .ok s' ∧ Inv (i + 1) s') :
    ∃ s', forLoop n body s = .ok s' ∧ Inv n s' := by
  induction n with
  | zero => exact ⟨s, rfl, hinit⟩
  | succ n ih =>
      obtain ⟨s₁, hrun, hinv⟩ := ih (fun i t hi => hstep i t (by omega))
      obtain ⟨s₂, hbody, hinv'⟩ := hstep n s₁ (by omega) hinv
      exact ⟨s₂, by rw [forLoop, hrun, ok_bind, hbody], hinv'⟩

/-- **Loop rule, known states.** If iteration `i` takes `f i` to `f (i + 1)`, the loop takes `f 0` to
    `f n`. -/
theorem forLoop_eq {n : Nat} {body : Nat → σ → Except ε σ} (f : Nat → σ)
    (hstep : ∀ i < n, body i (f i) = .ok (f (i + 1))) : forLoop n body (f 0) = .ok (f n) := by
  have hinv : ∀ i s, i < n → s = f i → ∃ s', body i s = .ok s' ∧ s' = f (i + 1) := by
    rintro i s hi rfl
    exact ⟨f (i + 1), hstep i hi, rfl⟩
  obtain ⟨s, hrun, rfl⟩ := forLoop_ok (fun i s => s = f i) rfl hinv
  exact hrun

/-- **Loop rule, optional states.** -/
theorem forLoop_some {n : Nat} {body : Nat → σ → Option σ} {s : σ} (Inv : Nat → σ → Prop)
    (hinit : Inv 0 s)
    (hstep : ∀ i s, i < n → Inv i s → ∃ s', body i s = some s' ∧ Inv (i + 1) s') :
    ∃ s', forLoop n body s = some s' ∧ Inv n s' := by
  induction n with
  | zero => exact ⟨s, rfl, hinit⟩
  | succ n ih =>
      obtain ⟨s₁, hrun, hinv⟩ := ih (fun i t hi => hstep i t (by omega))
      obtain ⟨s₂, hbody, hinv'⟩ := hstep n s₁ (by omega) hinv
      refine ⟨s₂, ?_, hinv'⟩
      rw [forLoop, hrun]
      exact hbody

/-- What a sequence that succeeds has computed on the way. -/
theorem of_bind_ok {x : Except ε α} {f : α → Except ε β} {b : β} (h : (x >>= f) = .ok b) :
    ∃ a, x = .ok a ∧ f a = .ok b := by
  cases x with
  | error e => cases h
  | ok a => exact ⟨a, rfl, h⟩

theorem ok_of_toOption {x : Except ε α} {a : α} (h : x.toOption = some a) : x = .ok a := by
  cases x with
  | error e => cases h
  | ok b => exact congrArg Except.ok (Option.some.inj h)

/-- **Loop rule, partial correctness.** What every successful iteration preserves holds after a loop
    that succeeds. -/
theorem forLoop_of_ok {n : Nat} {body : Nat → σ → Except ε σ} {s s' : σ} (Inv : Nat → σ → Prop)
    (hinit : Inv 0 s) (hstep : ∀ i s s', i < n → Inv i s → body i s = .ok s' → Inv (i + 1) s')
    (h : forLoop n body s = .ok s') : Inv n s' := by
  induction n generalizing s' with
  | zero =>
      cases h
      exact hinit
  | succ n ih =>
      obtain ⟨s₁, hrun, hbody⟩ := of_bind_ok h
      have hinv := ih (fun i t t' hi => hstep i t t' (Nat.lt_succ_of_lt hi)) hrun
      exact hstep n s₁ s' (Nat.lt_succ_self n) hinv hbody

end Lib.Loop
