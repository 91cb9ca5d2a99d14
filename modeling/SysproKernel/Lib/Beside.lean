import Mathlib.Order.CompletePartialOrder
import Mathlib.Order.Interval.Set.Disjoint
import SysproKernel.Lib.Driver

/-!
# `Lib.Beside` — clients beside each other

Two clients share one memory and one thread: their calls come in any order, one at a time, and between
any two accesses of a call either client's device may move. Each client is verified alone, against its own
device. What has to be known of it besides is that it is confined to some memory `F`: its calls and its
device stay inside `F`, and what is asserted of it looks at nothing else.

* **locality**: a safe program stays safe in every world that agrees on `F` (`Safe.agree`), because every
  move of its device can be followed from the one world to the other;
* **composition**: clients confined to disjoint memories keep what each was verified for, in every
  interleaving of both (`beside_reachable`).
-/

namespace Lib.Driver

open Lib.ByteMem (Mem)
open Relation (ReflTransGen)

-- two rules follow the recursion of `Safe`
attribute [local semireducible] Safe

/-! ## Two specifications at once -/

section Conjunction

variable {Γ ω σ δ α γ : Type}

def Spec.and (S T : Spec σ) : Spec σ :=
  { always := fun s => S.always s ∧ T.always s
    access := fun a n => S.access a n ∧ T.access a n
    blocked := fun s => S.blocked s ∧ T.blocked s
    fault := S.fault ∧ T.fault }

section Generic

variable [Surroundings Γ σ] [Output ω σ] {E : Γ} {S T : Spec σ} {Q R : α → σ → Prop} {p : Prog ω α}
  {s : σ}

theorem Throughout.and {φ ψ : σ → Prop} (hφ : Throughout E S s φ) (hψ : Throughout E T s ψ) :
    Throughout E (S.and T) s (fun u => φ u ∧ ψ u) :=
  fun u hu => ⟨⟨(hφ u hu).1, (hψ u hu).1⟩, (hφ u hu).2, (hψ u hu).2⟩

/-- What is safe for two specifications is safe for both at once. -/
theorem Safe.and (hS : Safe E S Q p s) (hT : Safe E T R p s) :
    Safe E (S.and T) (fun a u => Q a u ∧ R a u) p s := by
  induction p generalizing s with
  | ret a => exact Throughout.and hS hT
  | loadThen a n k ih =>
      refine (Throughout.and hS hT).mono ?_
      rintro u ⟨⟨haS, hS⟩, haT, hT⟩
      exact ⟨⟨haS, haT⟩, ih _ hS hT⟩
  | storeThen a n v k ih =>
      refine (Throughout.and hS hT).mono ?_
      rintro u ⟨⟨haS, hS⟩, haT, hT⟩
      exact ⟨⟨haS, haT⟩, ih hS hT⟩
  | ioReadThen n port k ih =>
      refine (Throughout.and hS hT).mono ?_
      rintro u ⟨hS, hT⟩ v hv
      exact ih _ (hS v hv) (hT v hv)
  | ioWriteThen n port v k ih =>
      refine (Throughout.and hS hT).mono ?_
      rintro u ⟨hS, hT⟩
      exact ih hS hT
  | printThen o k ih =>
      refine (Throughout.and hS hT).mono ?_
      rintro u ⟨hS, hT⟩
      exact ih hS hT
  | awaitThen a n r k ih =>
      refine (Throughout.and hS hT).mono ?_
      rintro u ⟨⟨haS, hreadyS, hwaitS⟩, haT, hreadyT, hwaitT⟩
      exact ⟨⟨haS, haT⟩, fun hr => ih (hreadyS hr) (hreadyT hr), fun hr => ⟨hwaitS hr, hwaitT hr⟩⟩
  | hang => exact Throughout.and hS hT
  | fault => exact Throughout.and hS hT

end Generic

theorem Client.Verified.and {C : Client ω δ γ α} {E : Env δ} {S T : γ → Spec (World ω δ)}
    {I J : γ → World ω δ → Prop} (hS : C.Verified E S I) (hT : C.Verified E T J) :
    C.Verified E (fun g => (S g).and (T g)) (fun g w => I g w ∧ J g w) where
  stable := fun g w w' h hm => ⟨hS.stable g w w' h.1 hm, hT.stable g w w' h.2 hm⟩
  call := fun g w g' w' p h hc => (hS.call g w g' w' p h.1 hc).and (hT.call g w g' w' p h.2 hc)

end Conjunction

/-! ## What a program prints -/

/-- Everything the program prints satisfies `P`. -/
def Prog.Prints {ω α : Type} (P : ω → Prop) : Prog ω α → Prop
  | .ret _             => True
  | .loadThen _ _ k    => ∀ v, (k v).Prints P
  | .storeThen _ _ _ k => k.Prints P
  | .ioReadThen _ _ k  => ∀ v, (k v).Prints P
  | .ioWriteThen _ _ _ k => k.Prints P
  | .printThen o k     => P o ∧ k.Prints P
  | .awaitThen _ _ _ k => k.Prints P
  | .hang              => True
  | .fault             => True

section Prints

variable {ω δ α β σ : Type} {P : ω → Prop} {p p' : Prog ω α}

theorem Prog.Prints.bind {f : α → Prog ω β} (h : p.Prints P) (hf : ∀ a, (f a).Prints P) :
    (p >>= f).Prints P := by
  induction p with
  | ret a => exact hf a
  | loadThen a n k ih => exact fun v => ih v (h v)
  | storeThen a n v k ih => exact ih h
  | ioReadThen n port k ih => exact fun v => ih v (h v)
  | ioWriteThen n port v k ih => exact ih h
  | printThen o k ih => exact ⟨h.1, ih h.2⟩
  | awaitThen a n r k ih => exact ih h
  | hang => trivial
  | fault => trivial

theorem Prog.Prints.forLoop {n : Nat} {body : Nat → σ → Prog ω σ} {s : σ}
    (h : ∀ i s, (body i s).Prints P) : (Lib.Loop.forLoop n body s : Prog ω σ).Prints P := by
  induction n with
  | zero => trivial
  | succ n ih => exact ih.bind (h n)

theorem Prog.prints_any (p : Prog ω α) : p.Prints (fun _ => True) := by
  induction p with
  | ret a => trivial
  | loadThen a n k ih => exact ih
  | storeThen a n v k ih => exact ih
  | ioReadThen n port k ih => exact ih
  | ioWriteThen n port v k ih => exact ih
  | printThen o k ih => exact ⟨trivial, ih⟩
  | awaitThen a n r k ih => exact ih
  | hang => trivial
  | fault => trivial

theorem Prog.Prints.step {E : Env δ} {w w' : World ω δ} (h : p.Prints P)
    (hs : Step E (p, w) (p', w')) : p'.Prints P := by
  cases hs with
  | load => exact h _
  | store => exact h
  | ioRead => exact h _
  | ioWrite => exact h
  | print => exact h.2
  | await => exact h

end Prints

/-! ## Locality -/

section Locality

variable {ω δ α : Type} {E : Env δ} {S : Spec (World ω δ)} {F : Set Nat} {Q : α → World ω δ → Prop}
  {p : Prog ω α} {w u : World ω δ}

/-- The worlds agree on the memory `F`, the device and the output. -/
structure Agree (F : Set Nat) (w u : World ω δ) : Prop where
  mem : Set.EqOn w.mem u.mem F
  dev : w.dev = u.dev
  out : w.out = u.out

theorem Agree.store (h : Agree F w u) (a n v : Nat) : Agree F (w.store a n v) (u.store a n v) :=
  ⟨Lib.ByteMem.store_congr h.mem, h.dev, h.out⟩

theorem Agree.print (h : Agree F w u) (o : ω) : Agree F (w.print o) (u.print o) :=
  ⟨h.mem, h.dev, congrArg (· ++ [o]) h.out⟩

theorem Agree.setDev (h : Agree F w u) (d : δ) : Agree F (w.setDev d) (u.setDev d) :=
  ⟨h.mem, rfl, h.out⟩

theorem Agree.act (h : Agree F w u) (E : Env δ) (e : Event) : Agree F (E.act w e) (E.act u e) := by
  cases e with
  | load a n v => exact h
  | store a n v => exact h.store a n v
  | ioRead n port v => exact h
  | ioWrite n port v =>
      have hset := h.setDev (E.write w.dev n port v)
      rw [h.dev] at hset
      rw [Env.act, Env.act, h.dev]
      exact hset

/-- The memory that is the one on `F` and the other elsewhere. -/
theorem exists_patch (F : Set Nat) (m m' : Mem) :
    ∃ m'' : Mem, Set.EqOn m'' m' F ∧ ∀ x, x ∉ F → m'' x = m x := by
  classical
  refine ⟨fun x => if x ∈ F then m' x else m x, ?_, ?_⟩
  · intro x hx
    exact if_pos hx
  · intro x hx
    exact if_neg hx

/-- A specification that looks at `F` only, allows access to `F` only, and a device whose moves depend on
    `F` only. -/
structure Local (E : Env δ) (S : Spec (World ω δ)) (F : Set Nat) : Prop where
  always : ∀ w u, Agree F w u → S.always w → S.always u
  access : ∀ a n, S.access a n → Set.Ico a (a + n) ⊆ F
  blocked : ∀ w u, Agree F w u → S.blocked w → S.blocked u
  follow : ∀ w u u', Agree F w u → S.always w → E.Move u u' → ∃ w', E.Move w w' ∧ Agree F w' u'

theorem Throughout.agree {φ ψ : World ω δ → Prop} (hL : Local E S F) (h : Throughout E S w φ)
    (hwu : Agree F w u) (himp : ∀ v v', Agree F v v' → φ v → ψ v') : Throughout E S u ψ := by
  intro u' hu
  obtain ⟨w', hw, hag⟩ : ∃ w', ReflTransGen E.Move w w' ∧ Agree F w' u' := by
    induction hu with
    | refl => exact ⟨w, .refl, hwu⟩
    | tail _ hm ih =>
        obtain ⟨v, hv, hag⟩ := ih
        obtain ⟨v', hm', hag'⟩ := hL.follow _ _ _ hag (h v hv).1 hm
        exact ⟨v', hv.tail hm', hag'⟩
  exact ⟨hL.always _ _ hag (h w' hw).1, himp _ _ hag (h w' hw).2⟩

/-- **Safety is local.** -/
theorem Safe.agree (hL : Local E S F) (hQ : ∀ a w u, Agree F w u → Q a w → Q a u)
    (h : Safe E S Q p w) (hwu : Agree F w u) : Safe E S Q p u := by
  have hload : ∀ {a n : Nat} {v v' : World ω δ}, Agree F v v' → S.access a n →
      Lib.ByteMem.load v'.mem a n = Lib.ByteMem.load v.mem a n :=
    fun hag hacc => (Lib.ByteMem.load_congr (hag.mem.mono (hL.access _ _ hacc))).symm
  induction p generalizing w u with
  | ret a => exact Throughout.agree hL h hwu (hQ a)
  | loadThen a n k ih =>
      refine Throughout.agree hL h hwu ?_
      rintro v v' hag ⟨hacc, hsafe⟩
      refine ⟨hacc, ih _ ?_ (hag.act E _)⟩
      rw [show Surroundings.mem E v' = v'.mem from rfl, hload hag hacc]
      exact hsafe
  | storeThen a n v k ih =>
      refine Throughout.agree hL h hwu ?_
      rintro v v' hag ⟨hacc, hsafe⟩
      exact ⟨hacc, ih hsafe (hag.act E _)⟩
  | ioReadThen n port k ih =>
      refine Throughout.agree hL h hwu ?_
      rintro v v' hag hsafe x hx
      have hx' : E.reads v.dev n port x := hag.dev ▸ hx
      exact ih _ (hsafe x hx') (hag.act E _)
  | ioWriteThen n port v k ih =>
      refine Throughout.agree hL h hwu ?_
      rintro v v' hag hsafe
      exact ih hsafe (hag.act E _)
  | printThen o k ih =>
      refine Throughout.agree hL h hwu ?_
      rintro v v' hag hsafe
      exact ih hsafe (hag.print _)
  | awaitThen a n r k ih =>
      refine Throughout.agree hL h hwu ?_
      rintro v v' hag ⟨hacc, hready, hwait⟩
      have hval : Lib.ByteMem.load (Surroundings.mem E v') a n = Lib.ByteMem.load v.mem a n :=
        hload hag hacc
      rw [hval]
      exact ⟨hacc, fun hr => ih (hready hr) (hag.act E _), fun hr => hL.blocked _ _ hag (hwait hr)⟩
  | hang => exact Throughout.agree hL h hwu hL.blocked
  | fault => exact Throughout.agree hL h hwu (fun _ _ _ hf => hf)

end Locality

/-! ## Part of a device -/

section View

variable {ω δ δ' α : Type} {E : Env δ} {E' : Env δ'} {p p' : Prog ω α} {w w' : World ω δ}

/-- The world with part of the device's state. -/
def World.view (f : δ → δ') (w : World ω δ) : World ω δ' :=
  { mem := w.mem, dev := f w.dev, out := w.out }

/-- An access, seen by part of the device. -/
theorem Env.act_view {f : δ → δ'}
    (hwrite : ∀ d n port v, f (E.write d n port v) = E'.write (f d) n port v) (w : World ω δ)
    (e : Event) : (E.act w e).view f = E'.act (w.view f) e := by
  cases e with
  | load a n v => rfl
  | store a n v => rfl
  | ioRead n port v => rfl
  | ioWrite n port v => simp only [Env.act, World.view, World.setDev, hwrite]

/-- A step of a program, seen by part of the device. -/
theorem Step.view (E' : Env δ') (f : δ → δ')
    (hreads : ∀ d n port v, E.reads d n port v → E'.reads (f d) n port v)
    (hwrite : ∀ d n port v, f (E.write d n port v) = E'.write (f d) n port v)
    (hs : Step E (p, w) (p', w')) : Step E' (p, w.view f) (p', w'.view f) := by
  cases hs with
  | load => exact .load
  | store => exact .store
  | ioRead hv => exact .ioRead (hreads _ _ _ _ hv)
  | @ioWrite n port v k _ =>
      have hact : (Surroundings.act E w (.ioWrite n port v)).view f
          = E'.act (w.view f) (.ioWrite n port v) := Env.act_view hwrite w _
      rw [hact]
      exact .ioWrite
  | print => exact .print
  | await hr => exact .await hr

theorem Returns.view (E' : Env δ') (f : δ → δ')
    (hreads : ∀ d n port v, E.reads d n port v → E'.reads (f d) n port v)
    (hwrite : ∀ d n port v, f (E.write d n port v) = E'.write (f d) n port v) {a : α}
    (hr : Returns E p w a w') : Returns E' p (w.view f) a (w'.view f) := by
  have hlift := ReflTransGen.lift (fun c : Prog ω α × World ω δ => (c.1, c.2.view f))
    (fun _ _ hs => Step.view E' f hreads hwrite hs) _ _ hr
  exact hlift

/-- A step on part of the device is one on the whole. -/
theorem Step.of_view {f : δ → δ'} (hreads : ∀ d n port v, E'.reads (f d) n port v → E.reads d n port v)
    (hwrite : ∀ d n port v, f (E.write d n port v) = E'.write (f d) n port v) {u : World ω δ'}
    (hs : Step E' (p, w.view f) (p', u)) : ∃ w', Step E (p, w) (p', w') ∧ w'.view f = u := by
  cases hs with
  | load => exact ⟨w, .load, rfl⟩
  | store => exact ⟨_, .store, rfl⟩
  | ioRead hv => exact ⟨w, .ioRead (hreads _ _ _ _ hv), rfl⟩
  | ioWrite => exact ⟨_, .ioWrite, Env.act_view hwrite w _⟩
  | print => exact ⟨_, .print, rfl⟩
  | await hr => exact ⟨w, .await hr, rfl⟩

theorem Returns.of_view {f : δ → δ'}
    (hreads : ∀ d n port v, E'.reads (f d) n port v → E.reads d n port v)
    (hwrite : ∀ d n port v, f (E.write d n port v) = E'.write (f d) n port v) {a : α} {u : World ω δ'}
    (hr : Returns E' p (w.view f) a u) : ∃ w', Returns E p w a w' ∧ w'.view f = u := by
  rw [Returns] at hr
  generalize hc : (p, w.view f) = c at hr
  induction hr using ReflTransGen.head_induction_on generalizing p w with
  | refl =>
      obtain ⟨rfl, hw⟩ := Prod.mk.inj hc
      exact ⟨w, .refl, hw⟩
  | @head c c' hstep hrest ih =>
      subst hc
      obtain ⟨p', v⟩ := c'
      obtain ⟨w', hfirst, rfl⟩ := hstep.of_view hreads hwrite
      obtain ⟨u', hrun, hu⟩ := ih rfl
      exact ⟨u', hrun.head hfirst, hu⟩

end View

/-! ## Confined clients -/

section Confined

variable {ω δ γ α : Type} {C : Client ω δ γ α} {E : Env δ} {S : γ → Spec (World ω δ)}
  {Idle : γ → World ω δ → Prop} {F : Set Nat} {P : ω → Prop} {g : γ} {p : Option (Prog ω α)}
  {w u : World ω δ}

/-- A verified client that stays inside the memory `F`, prints only what satisfies `P` and depends on
    nothing outside `F`. -/
structure Client.Confined (C : Client ω δ γ α) (E : Env δ) (S : γ → Spec (World ω δ))
    (Idle : γ → World ω δ → Prop) (F : Set Nat) (P : ω → Prop) : Prop
    extends Client.Verified C E S Idle where
  during : ∀ g, Local E (S g) F
  between : ∀ g w u, Agree F w u → Idle g w → Idle g u
  done : ∀ g a w u, Agree F w u → C.done g a w = C.done g a u
  device : ∀ g w w', (S g).always w ∨ Idle g w → E.Move w w' → ∀ x, x ∉ F → w'.mem x = w.mem x
  /-- the beginning of a call changes no memory and prints nothing -/
  begins : ∀ g w g' w' p, C.call g w g' w' p → w'.mem = w.mem ∧ w'.out = w.out
  prints : ∀ g w g' w' p, C.call g w g' w' p → p.Prints P

/-- Between its calls a client bears port writes and the printing of items satisfying `P`. -/
structure Bears (E : Env δ) (Idle : γ → World ω δ → Prop) (P : ω → Prop) : Prop where
  print : ∀ g w o, P o → Idle g w → Idle g (w.print o)
  write : ∀ g w n port v, Idle g w → Idle g (w.setDev (E.write w.dev n port v))

/-- What holds of a confined client holds in every world that agrees on its memory. -/
theorem Client.Confined.agree (h : C.Confined E S Idle F P) (hinv : C.Inv E S Idle (g, p, w))
    (hag : Agree F w u) : C.Inv E S Idle (g, p, u) := by
  cases p with
  | none => exact h.between _ _ _ hag hinv
  | some p =>
      refine Safe.agree (h.during g) ?_ hinv hag
      intro a v v' hv hidle
      rw [← h.done _ _ _ _ hv]
      exact h.between _ _ _ hv hidle

/-- The client's device stays inside its memory. -/
theorem Client.Confined.outside (h : C.Confined E S Idle F P) (hinv : C.Inv E S Idle (g, p, w))
    (hm : E.Move w u) {x : Nat} (hx : x ∉ F) : u.mem x = w.mem x := by
  cases p with
  | none => exact h.device g w u (Or.inr hinv) hm x hx
  | some p =>
      have hsafe : Safe E (S g) _ p w := hinv
      exact h.device g w u (Or.inl hsafe.always) hm x hx

/-- **Another program's step** leaves a client between its calls alone, if the program stays outside the
    client's memory. `f` is the client's part of the device. -/
theorem Client.Confined.idle_step {δ' β : Type} {E' : Env δ'} {f : δ' → δ} {q q' : Prog ω β}
    {v v' : World ω δ'} (h : C.Confined E S Idle F P) {P' : ω → Prop} (hbears : Bears E Idle P')
    (hwrite : ∀ d n port v, f (E'.write d n port v) = E.write (f d) n port v)
    (houtside : ∀ a n, q.nextAccess = some (a, n) → Disjoint (Set.Ico a (a + n)) F)
    (hprints : q.Prints P') (hidle : Idle g (v.view f)) (hs : Driver.Step E' (q, v) (q', v')) :
    Idle g (v'.view f) := by
  cases hs with
  | load => exact hidle
  | @store a n x k _ =>
      refine h.between g (v.view f) _ ⟨fun y hy => ?_, rfl, rfl⟩ hidle
      have hnot : y ∉ Set.Ico a (a + n) :=
        fun hmem => Set.disjoint_left.mp (houtside a n rfl) hmem hy
      have hout : y < a ∨ a + n ≤ y := by
        by_contra hin
        exact hnot ⟨by omega, by omega⟩
      exact (Lib.ByteMem.store_outside hout).symm
  | ioRead hv => exact hidle
  | @ioWrite n port x k _ =>
      have hkept := hbears.write g _ n port x hidle
      simp only [World.view, World.setDev, ← hwrite] at hkept
      exact hkept
  | print => exact hbears.print g _ _ hprints.1 hidle
  | await => exact hidle

end Confined

/-! ## Two clients -/

section Composition

variable {ω δ₁ δ₂ γ₁ γ₂ α₁ α₂ : Type}

/-- Two devices on one memory. A port write reaches both, and both have to allow what a port read
    returns. -/
def Env.beside (E₁ : Env δ₁) (E₂ : Env δ₂) : Env (δ₁ × δ₂) :=
  { step := fun m d m' d' => (E₁.step m d.1 m' d'.1 ∧ d'.2 = d.2) ∨ (E₂.step m d.2 m' d'.2 ∧ d'.1 = d.1)
    reads := fun d n port v => E₁.reads d.1 n port v ∧ E₂.reads d.2 n port v
    write := fun d n port v => (E₁.write d.1 n port v, E₂.write d.2 n port v) }

theorem Step.first {α : Type} {E₁ : Env δ₁} {E₂ : Env δ₂} {q q' : Prog ω α} {w w' : World ω (δ₁ × δ₂)}
    (hs : Step (E₁.beside E₂) (q, w) (q', w')) :
    Step E₁ (q, w.view Prod.fst) (q', w'.view Prod.fst) :=
  Step.view E₁ Prod.fst (fun _ _ _ _ => And.left) (fun _ _ _ _ => rfl) hs

theorem Step.second {α : Type} {E₁ : Env δ₁} {E₂ : Env δ₂} {q q' : Prog ω α} {w w' : World ω (δ₁ × δ₂)}
    (hs : Step (E₁.beside E₂) (q, w) (q', w')) :
    Step E₂ (q, w.view Prod.snd) (q', w'.view Prod.snd) :=
  Step.view E₂ Prod.snd (fun _ _ _ _ => And.right) (fun _ _ _ _ => rfl) hs

/-- The first client's call, in the system of both. -/
def Prog.first (p : Prog ω α₁) : Prog ω (α₁ ⊕ α₂) := p >>= fun a => pure (.inl a)

def Prog.second (p : Prog ω α₂) : Prog ω (α₁ ⊕ α₂) := p >>= fun a => pure (.inr a)

/-- The calls of two clients, each returning to its own. -/
def Client.beside (C₁ : Client ω δ₁ γ₁ α₁) (C₂ : Client ω δ₂ γ₂ α₂) :
    Client ω (δ₁ × δ₂) (γ₁ × γ₂) (α₁ ⊕ α₂) :=
  { call := fun g w g' w' p =>
      (∃ q, C₁.call g.1 (w.view Prod.fst) g'.1 (w'.view Prod.fst) q ∧ g'.2 = g.2 ∧
        w'.dev.2 = w.dev.2 ∧ p = q.first) ∨
      (∃ q, C₂.call g.2 (w.view Prod.snd) g'.2 (w'.view Prod.snd) q ∧ g'.1 = g.1 ∧
        w'.dev.1 = w.dev.1 ∧ p = q.second)
    done := fun g r w =>
      match r with
      | .inl a => (C₁.done g.1 a (w.view Prod.fst), g.2)
      | .inr a => (g.1, C₂.done g.2 a (w.view Prod.snd)) }

/-- Which client's call is running. -/
inductive Running : Option (Prog ω (α₁ ⊕ α₂)) → Option (Prog ω α₁) → Option (Prog ω α₂) → Prop
  | neither : Running none none none
  | first (p : Prog ω α₁) : Running (some p.first) (some p) none
  | second (p : Prog ω α₂) : Running (some p.second) none (some p)

variable {C₁ : Client ω δ₁ γ₁ α₁} {C₂ : Client ω δ₂ γ₂ α₂} {E₁ : Env δ₁} {E₂ : Env δ₂}
  {S₁ : γ₁ → Spec (World ω δ₁)} {S₂ : γ₂ → Spec (World ω δ₂)} {Idle₁ : γ₁ → World ω δ₁ → Prop}
  {Idle₂ : γ₂ → World ω δ₂ → Prop} {F₁ F₂ : Set Nat} {P₁ P₂ : ω → Prop}

/-- Both clients' invariants, each in its own part of the world. -/
structure BothInv (C₁ : Client ω δ₁ γ₁ α₁) (C₂ : Client ω δ₂ γ₂ α₂) (E₁ : Env δ₁) (E₂ : Env δ₂)
    (S₁ : γ₁ → Spec (World ω δ₁)) (S₂ : γ₂ → Spec (World ω δ₂)) (Idle₁ : γ₁ → World ω δ₁ → Prop)
    (Idle₂ : γ₂ → World ω δ₂ → Prop) (P₁ P₂ : ω → Prop)
    (s : Client.State ω (δ₁ × δ₂) (γ₁ × γ₂) (α₁ ⊕ α₂)) (p₁ : Option (Prog ω α₁))
    (p₂ : Option (Prog ω α₂)) : Prop where
  running : Running s.2.1 p₁ p₂
  first : C₁.Inv E₁ S₁ Idle₁ (s.1.1, p₁, s.2.2.view Prod.fst)
  second : C₂.Inv E₂ S₂ Idle₂ (s.1.2, p₂, s.2.2.view Prod.snd)
  first_prints : ∀ p, p₁ = some p → p.Prints P₁
  second_prints : ∀ p, p₂ = some p → p.Prints P₂

variable {s s' : Client.State ω (δ₁ × δ₂) (γ₁ × γ₂) (α₁ ⊕ α₂)} {p₁ : Option (Prog ω α₁)}
  {p₂ : Option (Prog ω α₂)}

/-- A sequence that ends in its second part has returned from its first. -/
theorem eq_ret_of_bind {α β : Type} {p : Prog ω α} {f : α → β} {b : β}
    (h : (p >>= fun a => pure (f a)) = (.ret b : Prog ω β)) : ∃ a, p = .ret a ∧ f a = b := by
  cases p with
  | ret a =>
      have hret : (.ret (f a) : Prog ω β) = .ret b := h
      cases hret
      exact ⟨a, rfl, rfl⟩
  | loadThen a n k => cases h
  | storeThen a n v k => cases h
  | ioReadThen n port k => cases h
  | ioWriteThen n port v k => cases h
  | printThen o k => cases h
  | awaitThen a n r k => cases h
  | hang => cases h
  | fault => cases h

/-- The worlds agree where a device that stays inside a disjoint memory cannot write. -/
theorem agree_of_outside {ω δ : Type} {F F' : Set Nat} {w u : World ω δ} (hF : Disjoint F F')
    (hmem : ∀ x, x ∉ F → u.mem x = w.mem x) (hdev : u.dev = w.dev) (hout : u.out = w.out) :
    Agree F' w u :=
  ⟨fun x hx => (hmem x (Set.disjoint_right.mp hF hx)).symm, hdev.symm, hout.symm⟩

theorem BothInv.env (h₁ : C₁.Confined E₁ S₁ Idle₁ F₁ P₁) (h₂ : C₂.Confined E₂ S₂ Idle₂ F₂ P₂)
    (hF : Disjoint F₁ F₂) {g : γ₁ × γ₂} {p : Option (Prog ω (α₁ ⊕ α₂))} {w w' : World ω (δ₁ × δ₂)}
    (h : BothInv C₁ C₂ E₁ E₂ S₁ S₂ Idle₁ Idle₂ P₁ P₂ (g, p, w) p₁ p₂)
    (hm : (E₁.beside E₂).Move w w') :
    BothInv C₁ C₂ E₁ E₂ S₁ S₂ Idle₁ Idle₂ P₁ P₂ (g, p, w') p₁ p₂ := by
  obtain ⟨⟨hs, hdev⟩ | ⟨hs, hdev⟩, hout⟩ := hm
  · have hmove : E₁.Move (w.view Prod.fst) (w'.view Prod.fst) := ⟨hs, hout⟩
    refine { h with first := h₁.toVerified.step h.first (.env hmove), second := ?_ }
    exact h₂.agree h.second
      (agree_of_outside hF (fun x hx => h₁.outside h.first hmove hx) hdev hout)
  · have hmove : E₂.Move (w.view Prod.snd) (w'.view Prod.snd) := ⟨hs, hout⟩
    refine { h with first := ?_, second := h₂.toVerified.step h.second (.env hmove) }
    exact h₁.agree h.first
      (agree_of_outside hF.symm (fun x hx => h₂.outside h.second hmove hx) hdev hout)

/-- **One step of the whole system.** -/
theorem BothInv.step (h₁ : C₁.Confined E₁ S₁ Idle₁ F₁ P₁) (h₂ : C₂.Confined E₂ S₂ Idle₂ F₂ P₂)
    (hF : Disjoint F₁ F₂) (hb₁ : Bears E₁ Idle₁ P₂) (hb₂ : Bears E₂ Idle₂ P₁)
    (h : BothInv C₁ C₂ E₁ E₂ S₁ S₂ Idle₁ Idle₂ P₁ P₂ s p₁ p₂)
    (hs : Client.Step (C₁.beside C₂) (E₁.beside E₂) s s') :
    ∃ p₁' p₂', BothInv C₁ C₂ E₁ E₂ S₁ S₂ Idle₁ Idle₂ P₁ P₂ s' p₁' p₂' := by
  cases hs with
  | env hm => exact ⟨p₁, p₂, h.env h₁ h₂ hF hm⟩
  | @prog g p p' w w' hp =>
      obtain ⟨hrun, hfirst, hsecond, hprints₁, hprints₂⟩ := h
      generalize hc : some p = c at hrun
      cases hrun with
      | neither => cases hc
      | first q =>
          cases hc
          obtain ⟨a, rfl⟩ | ⟨q', rfl, hq⟩ := hp.of_bind
          · cases hp
          have hsafe : Safe E₁ (S₁ g.1) _ q (w.view Prod.fst) := hfirst
          have hview : Step E₁ (q, w.view Prod.fst) (q', w'.view Prod.fst) := hq.first
          refine ⟨some q', none, .first q', hsafe.step hview, ?_, ?_, by rintro _ ⟨⟩⟩
          · refine h₂.idle_step hb₂ (fun _ _ _ _ => rfl) ?_ (hprints₁ q rfl) hsecond hq
            intro a n ha
            exact hF.mono_left ((h₁.during g.1).access a n (hsafe.access ha))
          · rintro _ ⟨⟩
            exact (hprints₁ q rfl).step hview
      | second q =>
          cases hc
          obtain ⟨a, rfl⟩ | ⟨q', rfl, hq⟩ := hp.of_bind
          · cases hp
          have hsafe : Safe E₂ (S₂ g.2) _ q (w.view Prod.snd) := hsecond
          have hview : Step E₂ (q, w.view Prod.snd) (q', w'.view Prod.snd) := hq.second
          refine ⟨none, some q', .second q', ?_, hsafe.step hview, by rintro _ ⟨⟩, ?_⟩
          · refine h₁.idle_step hb₁ (fun _ _ _ _ => rfl) ?_ (hprints₂ q rfl) hfirst hq
            intro a n ha
            exact hF.symm.mono_left ((h₂.during g.2).access a n (hsafe.access ha))
          · rintro _ ⟨⟩
            exact (hprints₂ q rfl).step hview
  | @call g g' p w w' hcall =>
      obtain ⟨hrun, hfirst, hsecond, -, -⟩ := h
      generalize hc : (none : Option (Prog ω (α₁ ⊕ α₂))) = c at hrun
      cases hrun with
      | first q => cases hc
      | second q => cases hc
      | neither =>
          obtain ⟨q, hq, hg, hdev, rfl⟩ | ⟨q, hq, hg, hdev, rfl⟩ := hcall
          · obtain ⟨hmem, hout⟩ := h₁.begins _ _ _ _ _ hq
            refine ⟨some q, none, .first q, h₁.call _ _ _ _ _ hfirst hq, ?_, ?_, by rintro _ ⟨⟩⟩
            · have hag : Agree F₂ (w.view Prod.snd) (w'.view Prod.snd) :=
                ⟨fun x _ => congrFun hmem.symm x, hdev.symm, hout.symm⟩
              have hidle := h₂.between _ _ _ hag hsecond
              rw [← hg] at hidle
              exact hidle
            · rintro _ ⟨⟩
              exact h₁.prints _ _ _ _ _ hq
          · obtain ⟨hmem, hout⟩ := h₂.begins _ _ _ _ _ hq
            refine ⟨none, some q, .second q, ?_, h₂.call _ _ _ _ _ hsecond hq, by rintro _ ⟨⟩, ?_⟩
            · have hag : Agree F₁ (w.view Prod.fst) (w'.view Prod.fst) :=
                ⟨fun x _ => congrFun hmem.symm x, hdev.symm, hout.symm⟩
              have hidle := h₁.between _ _ _ hag hfirst
              rw [← hg] at hidle
              exact hidle
            · rintro _ ⟨⟩
              exact h₂.prints _ _ _ _ _ hq
  | @done g r w =>
      obtain ⟨hrun, hfirst, hsecond, -, -⟩ := h
      generalize hc : some (.ret r : Prog ω (α₁ ⊕ α₂)) = c at hrun
      cases hrun with
      | neither => cases hc
      | first q =>
          obtain ⟨a, rfl, rfl⟩ := eq_ret_of_bind (Option.some.inj hc).symm
          have hdone := h₁.toVerified.step hfirst .done
          exact ⟨none, none, .neither, hdone, hsecond, by rintro _ ⟨⟩, by rintro _ ⟨⟩⟩
      | second q =>
          obtain ⟨a, rfl, rfl⟩ := eq_ret_of_bind (Option.some.inj hc).symm
          have hdone := h₂.toVerified.step hsecond .done
          exact ⟨none, none, .neither, hfirst, hdone, by rintro _ ⟨⟩, by rintro _ ⟨⟩⟩

/-- **Confined clients beside each other** keep what they were verified for, in every reachable state. -/
theorem beside_reachable (h₁ : C₁.Confined E₁ S₁ Idle₁ F₁ P₁) (h₂ : C₂.Confined E₂ S₂ Idle₂ F₂ P₂)
    (hF : Disjoint F₁ F₂) (hb₁ : Bears E₁ Idle₁ P₂) (hb₂ : Bears E₂ Idle₂ P₁) {g : γ₁ × γ₂}
    {w : World ω (δ₁ × δ₂)} (hi₁ : Idle₁ g.1 (w.view Prod.fst)) (hi₂ : Idle₂ g.2 (w.view Prod.snd))
    (hs : Client.Reaches (C₁.beside C₂) (E₁.beside E₂) (g, none, w) s) :
    ∃ p₁ p₂, BothInv C₁ C₂ E₁ E₂ S₁ S₂ Idle₁ Idle₂ P₁ P₂ s p₁ p₂ := by
  induction hs with
  | refl => exact ⟨none, none, .neither, hi₁, hi₂, by rintro _ ⟨⟩, by rintro _ ⟨⟩⟩
  | tail _ hstep ih =>
      obtain ⟨p₁, p₂, hboth⟩ := ih
      exact hboth.step h₁ h₂ hF hb₁ hb₂ hstep

/-- A run of the first client alone is a run of both, in which the second is never called and its device
    does not move. -/
theorem Client.Reaches.first (C₂ : Client ω δ₂ γ₂ α₂) (E₂ : Env δ₂) (g₂ : γ₂)
    (hreads : ∀ d n port v, E₂.reads d n port v) {w : World ω (δ₁ × δ₂)} {g₁ g₁' : γ₁}
    {p p' : Option (Prog ω α₁)} {u : World ω δ₁}
    (hs : C₁.Reaches E₁ (g₁, p, w.view Prod.fst) (g₁', p', u)) :
    ∃ w', w'.view Prod.fst = u ∧ (C₁.beside C₂).Reaches (E₁.beside E₂) ((g₁, g₂), p.map Prog.first, w)
      ((g₁', g₂), p'.map Prog.first, w') ∧
      ∀ P : δ₂ → Prop, (∀ d n port v, P d → P (E₂.write d n port v)) → P w.dev.2 → P w'.dev.2 := by
  rw [Client.Reaches] at hs
  generalize hc : (g₁, p, w.view Prod.fst) = c at hs
  generalize hc' : (g₁', p', u) = c' at hs
  induction hs generalizing g₁' p' u with
  | refl =>
      cases hc
      cases hc'
      exact ⟨w, rfl, .refl, fun _ _ h => h⟩
  | @tail b c hab hstep ih =>
      obtain ⟨gb, pb, ub⟩ := b
      obtain ⟨v, rfl, hrun, hkept⟩ := ih rfl
      cases hc'
      cases hstep with
      | env hm =>
          exact ⟨⟨u.mem, (u.dev, v.dev.2), u.out⟩, rfl, hrun.tail (.env ⟨.inl ⟨hm.1, rfl⟩, hm.2⟩),
            hkept⟩
      | prog hp =>
          obtain ⟨v', hp', rfl⟩ := hp.of_view (E := E₁.beside E₂)
            (fun _ _ _ _ hr => ⟨hr, hreads _ _ _ _⟩) (fun _ _ _ _ => rfl)
          refine ⟨v', rfl, hrun.tail (.prog (hp'.bind _)), fun P hP h => ?_⟩
          exact dev_of_run (P := fun d => P d.2) (fun d n port x => hP d.2 n port x) (.single hp')
            (hkept P hP h)
      | call hcall =>
          exact ⟨⟨u.mem, (u.dev, v.dev.2), u.out⟩, rfl,
            hrun.tail (.call (.inl ⟨_, hcall, rfl, rfl, rfl⟩)), hkept⟩
      | done => exact ⟨v, rfl, hrun.tail .done, hkept⟩

theorem Client.Reaches.second (C₁ : Client ω δ₁ γ₁ α₁) (E₁ : Env δ₁) (g₁ : γ₁)
    (hreads : ∀ d n port v, E₁.reads d n port v) {w : World ω (δ₁ × δ₂)} {g₂ g₂' : γ₂}
    {p p' : Option (Prog ω α₂)} {u : World ω δ₂}
    (hs : C₂.Reaches E₂ (g₂, p, w.view Prod.snd) (g₂', p', u)) :
    ∃ w', w'.view Prod.snd = u ∧ (C₁.beside C₂).Reaches (E₁.beside E₂) ((g₁, g₂), p.map Prog.second, w)
      ((g₁, g₂'), p'.map Prog.second, w') ∧
      ∀ P : δ₁ → Prop, (∀ d n port v, P d → P (E₁.write d n port v)) → P w.dev.1 → P w'.dev.1 := by
  rw [Client.Reaches] at hs
  generalize hc : (g₂, p, w.view Prod.snd) = c at hs
  generalize hc' : (g₂', p', u) = c' at hs
  induction hs generalizing g₂' p' u with
  | refl =>
      cases hc
      cases hc'
      exact ⟨w, rfl, .refl, fun _ _ h => h⟩
  | @tail b c hab hstep ih =>
      obtain ⟨gb, pb, ub⟩ := b
      obtain ⟨v, rfl, hrun, hkept⟩ := ih rfl
      cases hc'
      cases hstep with
      | env hm =>
          exact ⟨⟨u.mem, (v.dev.1, u.dev), u.out⟩, rfl, hrun.tail (.env ⟨.inr ⟨hm.1, rfl⟩, hm.2⟩),
            hkept⟩
      | prog hp =>
          obtain ⟨v', hp', rfl⟩ := hp.of_view (E := E₁.beside E₂)
            (fun _ _ _ _ hr => ⟨hreads _ _ _ _, hr⟩) (fun _ _ _ _ => rfl)
          refine ⟨v', rfl, hrun.tail (.prog (hp'.bind _)), fun P hP h => ?_⟩
          exact dev_of_run (P := fun d => P d.1) (fun d n port x => hP d.1 n port x) (.single hp')
            (hkept P hP h)
      | call hcall =>
          exact ⟨⟨u.mem, (v.dev.1, u.dev), u.out⟩, rfl,
            hrun.tail (.call (.inr ⟨_, hcall, rfl, rfl, rfl⟩)), hkept⟩
      | done => exact ⟨v, rfl, hrun.tail .done, hkept⟩

end Composition

end Lib.Driver
