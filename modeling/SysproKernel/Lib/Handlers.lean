import Mathlib.Tactic.TypeStar

/-!
# `Lib.Handlers` — interrupt handlers run as if in one step

A program works, and causes enter handlers: a trap comes from the program itself, a maskable interrupt at
any moment at which interrupts are enabled, inside a handler too, and a handler may raise an exception by
its own next access. A handler goes from point to point, printing on its way, and leaves.

`Run` is this small-step system, with the handlers entered and not yet left on a stack. When entering a
handler disables interrupts and no handler enables them (`Masks`), and no handler on its way raises an
exception (`Calm`), handlers never nest and each runs from its entry to its exit undisturbed: a `Run` is an
`Atomic` run, in which a whole handler is one step, and at most one handler on the way (`Run.atomic`,
`Atomic.run`).

Whether a handler gets to its end is a question about all its ways from a point on: it may never get stuck
(`Unstuck`), and it may in addition always leave (`Ends`). Both are shown from the end backwards, by one set
of rules (`Backward`).
-/

namespace Lib.Handlers

/-- States `σ`, points inside handlers `χ`, causes `ε`, and what handlers print `ω`. -/
structure System (σ χ ε ω : Type) where
  /-- What the program does. -/
  work : σ → σ → Prop
  enabled : σ → Prop
  maskable : ε → Prop
  enter : ε → σ → χ → σ → Prop
  /-- An exception that the next access of a handler raises, and the handler it enters. -/
  raise : χ → σ → χ → σ → Prop
  step : χ → σ → List ω → χ → σ → Prop
  leave : χ → σ → σ → Prop

variable {σ χ ε ω : Type} {H : System σ χ ε ω} {s₀ s s' s₁ s₂ : σ} {c c' c₁ : χ} {cs : List χ} {e : ε}
  {out w w' : List ω}

/-! ## Single steps -/

/-- Runs from `s₀`: what has been printed, the handlers that are active, and the state. -/
inductive Run (H : System σ χ ε ω) (s₀ : σ) : List ω → List χ → σ → Prop
  | start : Run H s₀ [] [] s₀
  | work {out : List ω} {s s' : σ} : Run H s₀ out [] s → H.work s s' → Run H s₀ out [] s'
  | trap {out : List ω} {s s' : σ} {e : ε} {c : χ} :
      Run H s₀ out [] s → ¬ H.maskable e → H.enter e s c s' → Run H s₀ out [c] s'
  | interrupt {out : List ω} {cs : List χ} {s s' : σ} {e : ε} {c : χ} :
      Run H s₀ out cs s → H.maskable e → H.enabled s → H.enter e s c s' → Run H s₀ out (c :: cs) s'
  | raise {out : List ω} {cs : List χ} {s s' : σ} {c c' : χ} :
      Run H s₀ out (c :: cs) s → H.raise c s c' s' → Run H s₀ out (c' :: c :: cs) s'
  | step {out w : List ω} {cs : List χ} {s s' : σ} {c c' : χ} :
      Run H s₀ out (c :: cs) s → H.step c s w c' s' → Run H s₀ (out ++ w) (c' :: cs) s'
  | leave {out : List ω} {cs : List χ} {s s' : σ} {c : χ} :
      Run H s₀ out (c :: cs) s → H.leave c s s' → Run H s₀ out cs s'

/-! ## Whole handlers -/

/-- Inside one handler, from point to point. -/
inductive Steps (H : System σ χ ε ω) : χ → σ → List ω → χ → σ → Prop
  | refl {c : χ} {s : σ} : Steps H c s [] c s
  | head {c c₁ c' : χ} {s s₁ s' : σ} {w w' : List ω} :
      H.step c s w c₁ s₁ → Steps H c₁ s₁ w' c' s' → Steps H c s (w ++ w') c' s'

theorem Steps.trans (h : Steps H c s w c₁ s₁) (h' : Steps H c₁ s₁ w' c' s') :
    Steps H c s (w ++ w') c' s' := by
  induction h with
  | refl => exact h'
  | head hstep _ ih =>
      rw [List.append_assoc]
      exact .head hstep (ih h')

theorem Steps.single (h : H.step c s w c' s') : Steps H c s w c' s' := by
  simpa using Steps.head h .refl

/-- From a cause to the point where the program goes on. -/
def Handles (H : System σ χ ε ω) (e : ε) (s : σ) (w : List ω) (s' : σ) : Prop :=
  ∃ c s₁ c' s₂, H.enter e s c s₁ ∧ Steps H c s₁ w c' s₂ ∧ H.leave c' s₂ s'

/-- A handler that has run. -/
structure Handled (σ ε ω : Type) where
  cause : ε
  before : σ
  out : List ω
  after : σ

/-- Runs in which a whole handler is one step, with the handlers that have run. -/
inductive Atomic (H : System σ χ ε ω) (s₀ : σ) : List (Handled σ ε ω) → σ → Prop
  | start : Atomic H s₀ [] s₀
  | work {h : List (Handled σ ε ω)} {s s' : σ} : Atomic H s₀ h s → H.work s s' → Atomic H s₀ h s'
  | handle {h : List (Handled σ ε ω)} {s s' : σ} {e : ε} {w : List ω} :
      Atomic H s₀ h s → (H.maskable e → H.enabled s) → Handles H e s w s' →
      Atomic H s₀ (h ++ [⟨e, s, w, s'⟩]) s'

/-- What they have printed. -/
def printed (h : List (Handled σ ε ω)) : List ω := h.flatMap Handled.out

theorem printed_concat (h : List (Handled σ ε ω)) (x : Handled σ ε ω) :
    printed (h ++ [x]) = printed h ++ x.out := by
  unfold printed
  rw [List.flatMap_append, List.flatMap_singleton]

/-! ## The way to the end -/

/-- The handler can go on, or leave. -/
def Alive (H : System σ χ ε ω) (c : χ) (s : σ) : Prop :=
  (∃ w c' s', H.step c s w c' s') ∨ ∃ s', H.leave c s s'

/-- From here on the handler does not get stuck, whichever way it takes. -/
def Unstuck (H : System σ χ ε ω) (c : χ) (s : σ) : Prop :=
  ∀ w c' s', Steps H c s w c' s' → Alive H c' s'

theorem Unstuck.alive (h : Unstuck H c s) : Alive H c s := h _ _ _ .refl

theorem Unstuck.steps (h : Unstuck H c s) (hsteps : Steps H c s w c' s') : Unstuck H c' s' :=
  fun _ _ _ hrest => h _ _ _ (hsteps.trans hrest)

/-- **It leaves, whichever way it takes**: no way is stuck, and none goes on for ever. -/
inductive Ends (H : System σ χ ε ω) : χ → σ → Prop
  | leave {c : χ} {s s' : σ} : H.leave c s s' → (∀ w c' s', ¬ H.step c s w c' s') → Ends H c s
  | step {c : χ} {s : σ} : (∃ w c' s', H.step c s w c' s') →
      (∀ w c' s', H.step c s w c' s' → Ends H c' s') → Ends H c s

/-- What holds at a point if the handler can go on from there and it holds wherever it goes. -/
def Backward (H : System σ χ ε ω) (P : χ → σ → Prop) : Prop :=
  ∀ c s, (∃ w c' s', H.step c s w c' s') → (∀ w c' s', H.step c s w c' s' → P c' s') → P c s

theorem Ends.backward : Backward H (Ends H) := fun _ _ hcan hall => .step hcan hall

theorem Unstuck.backward : Backward H (Unstuck H) := by
  intro c s hcan hall w c' s' hsteps
  cases hsteps with
  | refl => exact .inl hcan
  | head hstep hrest => exact hall _ _ _ hstep _ _ _ hrest

theorem Ends.unstuck (h : Ends H c s) : Unstuck H c s := by
  induction h with
  | leave hleave hlast =>
      intro w c' s' hsteps
      cases hsteps with
      | refl => exact .inr ⟨_, hleave⟩
      | head hstep _ => exact absurd hstep (hlast _ _ _)
  | step hcan _ ih => exact Unstuck.backward _ _ hcan ih

/-- One of its ways. -/
theorem Ends.leaves (h : Ends H c s) : ∃ w c' s₁ s', Steps H c s w c' s₁ ∧ H.leave c' s₁ s' := by
  induction h with
  | leave hleave _ => exact ⟨_, _, _, _, .refl, hleave⟩
  | step hcan _ ih =>
      obtain ⟨w₁, c₁, s₁, hstep⟩ := hcan
      obtain ⟨w₂, c₂, s₂, s', hsteps, hleave⟩ := ih _ _ _ hstep
      exact ⟨_, _, _, _, .head hstep hsteps, hleave⟩

/-! ## Masked handlers -/

/-- Interrupts are disabled from the entry of a handler to its exit. -/
structure Masks (H : System σ χ ε ω) : Prop where
  enter : ∀ {e s c s'}, H.enter e s c s' → ¬ H.enabled s'
  step : ∀ {c s w c' s'}, H.step c s w c' s' → ¬ H.enabled s → ¬ H.enabled s'

/-- A handler on the way: the run up to its entry, and its steps since then. -/
structure Active (H : System σ χ ε ω) (s₀ : σ) (out : List ω) (c : χ) (s : σ) : Prop where
  masked : ¬ H.enabled s
  since : ∃ h e s₁ c₁ s₂ w, Atomic H s₀ h s₁ ∧ (H.maskable e → H.enabled s₁) ∧ H.enter e s₁ c₁ s₂
    ∧ Steps H c₁ s₂ w c s ∧ out = printed h ++ w

/-- A handler just entered. -/
theorem Active.enter {h : List (Handled σ ε ω)} (hmask : Masks H) (hrun : Atomic H s₀ h s)
    (hwhen : H.maskable e → H.enabled s) (henter : H.enter e s c s') :
    Active H s₀ (printed h) c s' :=
  ⟨hmask.enter henter, h, e, s, c, s', [], hrun, hwhen, henter, .refl, by simp⟩

theorem Active.step (h : Active H s₀ out c s) (hmask : Masks H) (hstep : H.step c s w c' s') :
    Active H s₀ (out ++ w) c' s' := by
  obtain ⟨hoff, h, e, s₁, c₁, s₂, w₁, hrun, hwhen, henter, hsteps, rfl⟩ := h
  refine ⟨hmask.step hstep hoff, h, e, s₁, c₁, s₂, w₁ ++ w, hrun, hwhen, henter,
    hsteps.trans (.single hstep), ?_⟩
  rw [List.append_assoc]

theorem Active.leave (h : Active H s₀ out c s) (hleave : H.leave c s s') :
    ∃ h, Atomic H s₀ h s' ∧ out = printed h := by
  obtain ⟨-, h, e, s₁, c₁, s₂, w₁, hrun, hwhen, henter, hsteps, rfl⟩ := h
  have hhandles : Handles H e s₁ w₁ s' := ⟨c₁, s₂, c, s, henter, hsteps, hleave⟩
  exact ⟨_, hrun.handle hwhen hhandles, (printed_concat h ⟨e, s₁, w₁, s'⟩).symm⟩

/-- No handler on its way raises an exception. -/
def Calm (H : System σ χ ε ω) (s₀ : σ) : Prop :=
  ∀ {out : List ω} {c : χ} {s : σ}, Active H s₀ out c s → ∀ c' s', ¬ H.raise c s c' s'

/-- **Handlers do not nest, and run undisturbed.** -/
theorem Run.atomic (hmask : Masks H) (hcalm : Calm H s₀) (hrun : Run H s₀ out cs s) :
    (cs = [] ∧ ∃ h, Atomic H s₀ h s ∧ out = printed h) ∨ ∃ c, cs = [c] ∧ Active H s₀ out c s := by
  induction hrun with
  | start => exact .inl ⟨rfl, [], .start, rfl⟩
  | work _ hwork ih =>
      obtain ⟨-, h, hrun, hout⟩ | ⟨c, hc, -⟩ := ih
      · exact .inl ⟨rfl, h, hrun.work hwork, hout⟩
      · cases hc
  | trap _ htrap henter ih =>
      obtain ⟨-, h, hrun, rfl⟩ | ⟨c, hc, -⟩ := ih
      · exact .inr ⟨_, rfl, .enter hmask hrun (fun h => absurd h htrap) henter⟩
      · cases hc
  | interrupt _ _ henabled henter ih =>
      obtain ⟨rfl, h, hrun, rfl⟩ | ⟨c, -, hactive⟩ := ih
      · exact .inr ⟨_, rfl, .enter hmask hrun (fun _ => henabled) henter⟩
      · -- inside a handler no interrupt is taken
        exact absurd henabled hactive.masked
  | raise _ hraise ih =>
      obtain ⟨hnil, -⟩ | ⟨c, hc, hactive⟩ := ih
      · cases hnil
      · cases hc
        exact absurd hraise (hcalm hactive _ _)
  | step _ hstep ih =>
      obtain ⟨hnil, -⟩ | ⟨c, hc, hactive⟩ := ih
      · cases hnil
      · cases hc
        exact .inr ⟨_, rfl, hactive.step hmask hstep⟩
  | leave _ hleave ih =>
      obtain ⟨hnil, -⟩ | ⟨c, hc, hactive⟩ := ih
      · cases hnil
      · cases hc
        exact .inl ⟨rfl, hactive.leave hleave⟩

/-! ## And back -/

theorem Run.steps (hsteps : Steps H c s w c' s') :
    ∀ {out : List ω}, Run H s₀ out (c :: cs) s → Run H s₀ (out ++ w) (c' :: cs) s' := by
  induction hsteps with
  | refl => simp
  | head hstep _ ih =>
      intro out hrun
      rw [← List.append_assoc]
      exact ih (hrun.step hstep)

theorem Run.handles (hrun : Run H s₀ out [] s) (hwhen : H.maskable e → H.enabled s)
    (h : Handles H e s w s') : Run H s₀ (out ++ w) [] s' := by
  obtain ⟨c, s₁, c', s₂, henter, hsteps, hleave⟩ := h
  by_cases hmaskable : H.maskable e
  · exact ((hrun.interrupt hmaskable (hwhen hmaskable) henter).steps hsteps).leave hleave
  · exact ((hrun.trap hmaskable henter).steps hsteps).leave hleave

/-- **A run of whole handlers** is a run of their steps. -/
theorem Atomic.run {h : List (Handled σ ε ω)} (hrun : Atomic H s₀ h s) :
    Run H s₀ (printed h) [] s := by
  induction hrun with
  | start => exact .start
  | work _ hwork ih => exact ih.work hwork
  | handle _ hwhen hhandles ih =>
      rw [printed_concat]
      exact ih.handles hwhen hhandles

end Lib.Handlers
