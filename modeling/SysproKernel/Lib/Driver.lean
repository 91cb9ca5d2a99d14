import SysproKernel.Lib.Program

/-!
# `Lib.Driver` — driver programs running beside a device

The surroundings of a program are a device with direct access to the same memory (`Env`): it may move
between any two accesses, answers port reads, and reacts to port writes. States are `World`s, which also
keep what has been printed; an access other than a store or a port write leaves a world as it is.

A routine run alone needs properties of memory only (`Assertion.memory`). A routine called again and again
is a `Client`: what holds between its calls, and safety during each, cover every state of every run
(`Client.Verified.reachable`).
-/

namespace Lib.Driver

open Lib.ByteMem (Mem)
open Relation (ReflTransGen)

/-! ## Worlds and devices -/

/-- What the program and its environment share: memory, the device's own state, and the output. -/
structure World (ω δ : Type) where
  mem : Mem
  dev : δ
  out : List ω

/-- The environment: the device's moves on memory and its own state, the values its ports may return,
    and its reaction to a port write. -/
structure Env (δ : Type) where
  step : Mem → δ → Mem → δ → Prop
  reads : δ → Nat → Nat → Nat → Prop
  write : δ → Nat → Nat → Nat → δ

/-- The environment that makes no move of its own and whose ports may answer as `reads` says. -/
def Env.alone (δ : Type) (reads : Nat → Nat → Nat → Prop) : Env δ :=
  { step := fun _ _ _ _ => False, reads := fun _ => reads, write := fun d _ _ _ => d }

namespace World

variable {ω δ : Type}

def store (w : World ω δ) (a n v : Nat) : World ω δ := { w with mem := Lib.ByteMem.store w.mem a n v }

def print (w : World ω δ) (o : ω) : World ω δ := { w with out := w.out ++ [o] }

def setDev (w : World ω δ) (d : δ) : World ω δ := { w with dev := d }

end World

variable {ω δ α β : Type}

/-- One move of the environment; it prints nothing. -/
def Env.Move (E : Env δ) (w w' : World ω δ) : Prop :=
  E.step w.mem w.dev w'.mem w'.dev ∧ w'.out = w.out

/-- What an access does to the world. -/
def Env.act (E : Env δ) (w : World ω δ) : Event → World ω δ
  | .store a n v        => w.store a n v
  | .ioWrite n port v   => w.setDev (E.write w.dev n port v)
  | .load _ _ _         => w
  | .ioRead _ _ _       => w

-- defaults, so that the world beside a program is found from its device and from what it prints
@[default_instance]
instance : Surroundings (Env δ) (World ω δ) where
  mem := fun _ w => w.mem
  Move := Env.Move
  answers := fun E w => E.reads w.dev
  act := Env.act

@[default_instance]
instance : Output ω (World ω δ) := ⟨World.print⟩

section Worlds

variable {E : Env δ} {S : Spec (World ω δ)} {p p' : Prog ω α} {w w' : World ω δ}

/-- What the device's reactions to port writes keep, every access keeps. -/
theorem Env.act_dev {P : δ → Prop} (hP : ∀ d n port v, P d → P (E.write d n port v)) (e : Event)
    (h : P w.dev) : P (E.act w e).dev := by
  cases e with
  | load a n v => exact h
  | store a n v => exact h
  | ioRead n port v => exact h
  | ioWrite n port v => exact hP _ _ _ _ h

/-- What the device's reactions to port writes keep, a run of the program alone keeps. -/
theorem dev_of_run {P : δ → Prop} (hP : ∀ d n port v, P d → P (E.write d n port v))
    (hs : ReflTransGen (Step E) (p, w) (p', w')) (h : P w.dev) : P w'.dev := by
  generalize hc : (p', w') = c at hs
  induction hs generalizing p' w' with
  | refl =>
      cases hc
      exact h
  | tail hab hbc ih =>
      subst hc
      have hmid := ih rfl
      cases hbc with
      | load => exact Env.act_dev hP _ hmid
      | store => exact Env.act_dev hP _ hmid
      | ioRead => exact Env.act_dev hP _ hmid
      | ioWrite => exact Env.act_dev hP _ hmid
      | print => exact hmid
      | await => exact Env.act_dev hP _ hmid

variable {A : Assertion E S}

/-- A load whose value the precondition determines. -/
theorem Triple.load_bind {a n v : Nat} {f : Nat → Prog ω β} {C : β → Assertion E S}
    (hacc : S.access a n) (hval : ∀ w, A.holds w → Lib.ByteMem.load w.mem a n = v)
    (hf : Triple A (f v) C) : Triple A (Prog.load a n >>= f) C :=
  Triple.load_known hacc hval (fun _ hw => hw) hf

/-- A port read: the rest of the program is checked for every answer the environment may give. -/
theorem Triple.ioRead_bind {n port : Nat} {f : Nat → Prog ω β} {C : β → Assertion E S}
    (hf : ∀ v d, E.reads d n port v → Triple A (f (v % 256 ^ n)) C) :
    Triple A (Prog.ioRead n port >>= f) C :=
  Triple.ioRead_each (fun _ => A) (fun _ _ hw _ => hw) (fun w v _ hv => hf v w.dev hv)

end Worlds

/-! ## Programs running alone -/

/-- Nothing is asked of the run itself but that it waits only if `blocked` allows it. -/
def Spec.alone (ω δ : Type) (blocked : Prop) : Spec (World ω δ) :=
  { always := fun _ => True, blocked := fun _ => blocked }

section Alone

variable {reads : Nat → Nat → Nat → Prop} {blocked : Prop} {φ ψ : Mem → Prop} {d : δ}

/-- A property of memory, the device being left alone. -/
def Assertion.memory (reads : Nat → Nat → Nat → Prop) (blocked : Prop) (φ : Mem → Prop) (d : δ) :
    Assertion (Env.alone δ reads) (Spec.alone ω δ blocked) :=
  { holds := fun w => φ w.mem ∧ w.dev = d
    stable := fun _ _ _ hm => hm.1.elim
    always := fun _ _ => trivial }

theorem Triple.memory_store {a n v : Nat} (h : ∀ m, φ m → ψ (Lib.ByteMem.store m a n v)) :
    Triple (Assertion.memory reads blocked φ d) (Prog.store a n v : Prog ω Unit)
      (fun _ => Assertion.memory reads blocked ψ d) :=
  Triple.store trivial (fun w hw => ⟨h w.mem hw.1, hw.2⟩)

theorem Triple.memory_pre {p : Prog ω α} {B : α → Assertion (Env.alone δ reads) (Spec.alone ω δ blocked)}
    (h : ∀ m, φ m → ψ m) (hp : Triple (Assertion.memory reads blocked ψ d) p B) :
    Triple (Assertion.memory reads blocked φ d) p B :=
  hp.weaken (fun w hw => ⟨h w.mem hw.1, hw.2⟩) (fun _ _ hw => hw)

/-- It suffices to start from a known memory. -/
theorem Triple.memory_of_eq {p : Prog ω α} {B : α → Assertion (Env.alone δ reads) (Spec.alone ω δ blocked)}
    (h : ∀ m, φ m → Triple (Assertion.memory reads blocked (· = m) d) p B) :
    Triple (Assertion.memory reads blocked φ d) p B :=
  ⟨fun w hw => (h w.mem hw.1).safe w ⟨rfl, hw.2⟩⟩

/-- A store into a known memory. -/
theorem Triple.memory_store_eq {m : Mem} {a n v : Nat} :
    Triple (Assertion.memory reads blocked (· = m) d) (Prog.store a n v : Prog ω Unit)
      (fun _ => Assertion.memory reads blocked (· = Lib.ByteMem.store m a n v) d) :=
  Triple.memory_store (fun _ hm => by rw [hm])

theorem Triple.memory_ioWrite {n port v : Nat} :
    Triple (Assertion.memory reads blocked φ d) (Prog.ioWrite n port v : Prog ω Unit)
      (fun _ => Assertion.memory reads blocked φ d) :=
  Triple.ioWrite (fun _ hw => hw)

theorem Triple.memory_print {o : ω} :
    Triple (Assertion.memory reads blocked φ d) (Prog.print o)
      (fun _ => Assertion.memory reads blocked φ d) :=
  Triple.print (fun _ hw => hw)

/-- What a triple says of a run that has returned. -/
theorem Triple.of_returns {p : Prog ω α} {ψ : α → Mem → Prop} {w w' : World ω δ} {a : α}
    (h : Triple (Assertion.memory reads blocked φ w.dev) p
      (fun a => Assertion.memory reads blocked (ψ a) w.dev))
    (hφ : φ w.mem) (hr : Returns (Env.alone δ reads) p w a w') : ψ a w'.mem ∧ w'.dev = w.dev :=
  ((h.safe w ⟨hφ, rfl⟩).run hr).ret

/-- A program that is never blocked returns. -/
theorem Triple.returns {p : Prog ω α}
    {B : α → Assertion (Env.alone δ reads) (Spec.alone ω δ blocked)} {w : World ω δ}
    (h : Triple (Assertion.memory reads blocked φ w.dev) p B) (hφ : φ w.mem)
    (hreads : ∀ n port, ∃ v, reads n port v) (hb : ¬ blocked) :
    ∃ a w', Returns (Env.alone δ reads) p w a w' ∧ (B a).holds w' :=
  (h.safe w ⟨hφ, rfl⟩).returns (fun _ => hreads)
    (Spec.patient_of_unblocked (fun _ => hb) not_false) hb

end Alone

/-! ## Clients: sequences of calls -/

/-- A client calling a routine again and again. `call g w g' w' p` says that with bookkeeping `g`, in
    the world `w`, a call may begin and runs `p`; `done` updates the bookkeeping when it returns. -/
structure Client (ω δ γ α : Type) where
  call : γ → World ω δ → γ → World ω δ → Prog ω α → Prop
  done : γ → α → World ω δ → γ

namespace Client

variable {γ : Type} {C : Client ω δ γ α} {E : Env δ} {S : γ → Spec (World ω δ)}
  {Idle : γ → World ω δ → Prop} {s s' : γ × Option (Prog ω α) × World ω δ}

/-- A state of the whole system: bookkeeping, the call in progress if there is one, and the world. -/
abbrev State (ω δ γ α : Type) := γ × Option (Prog ω α) × World ω δ

/-- One step of the system: the device, the running call, the start of a call, or its return. -/
inductive Step (C : Client ω δ γ α) (E : Env δ) : State ω δ γ α → State ω δ γ α → Prop
  | env {g : γ} {p : Option (Prog ω α)} {w w' : World ω δ} (h : E.Move w w') :
      Step C E (g, p, w) (g, p, w')
  | prog {g : γ} {p p' : Prog ω α} {w w' : World ω δ} (h : Driver.Step E (p, w) (p', w')) :
      Step C E (g, some p, w) (g, some p', w')
  | call {g g' : γ} {p : Prog ω α} {w w' : World ω δ} (h : C.call g w g' w' p) :
      Step C E (g, none, w) (g', some p, w')
  | done {g : γ} {a : α} {w : World ω δ} :
      Step C E (g, some (.ret a), w) (C.done g a w, none, w)

/-- The states reachable from `s`. -/
def Reaches (C : Client ω δ γ α) (E : Env δ) : State ω δ γ α → State ω δ γ α → Prop :=
  ReflTransGen (Step C E)

/-- What has to be shown of a client: a property between calls that the device keeps and from which
    every call is safe and re-establishes it. -/
structure Verified (C : Client ω δ γ α) (E : Env δ) (S : γ → Spec (World ω δ))
    (Idle : γ → World ω δ → Prop) : Prop where
  stable : ∀ g w w', Idle g w → E.Move w w' → Idle g w'
  call : ∀ g w g' w' p, Idle g w → C.call g w g' w' p →
    Safe E (S g') (fun a u => Idle (C.done g' a u) u) p w'

/-- The system invariant: the property between calls, safety of what remains during one. -/
def Inv (C : Client ω δ γ α) (E : Env δ) (S : γ → Spec (World ω δ)) (Idle : γ → World ω δ → Prop) :
    State ω δ γ α → Prop
  | (g, none, w)   => Idle g w
  | (g, some p, w) => Safe E (S g) (fun a u => Idle (C.done g a u) u) p w

theorem Verified.step (hv : Verified C E S Idle) (h : Inv C E S Idle s) (hs : Step C E s s') :
    Inv C E S Idle s' := by
  cases hs with
  | @env g p w w' hm =>
      cases p with
      | none => exact hv.stable _ _ _ h hm
      | some p => exact Safe.move h hm
  | prog hp => exact Safe.step h hp
  | call hc => exact hv.call _ _ _ _ _ h hc
  | @done g a w =>
      have hret : Safe E (S g) (fun a u => Idle (C.done g a u) u) (.ret a) w := h
      exact hret.ret

/-- **Every reachable state is covered**: between calls the property holds, and during a call what is
    left of it is safe. -/
theorem Verified.reachable (hv : Verified C E S Idle) {g : γ} {w : World ω δ} (h : Idle g w)
    (hs : Reaches C E (g, none, w) s) : Inv C E S Idle s := by
  induction hs with
  | refl => exact h
  | tail _ hstep ih => exact hv.step ih hstep

/-- A run of the program alone is a run of the system. -/
theorem reaches_of_run {g : γ} {p p' : Prog ω α} {w w' : World ω δ}
    (hs : ReflTransGen (Driver.Step E) (p, w) (p', w')) :
    Reaches C E (g, some p, w) (g, some p', w') := by
  generalize hc : (p', w') = c at hs
  induction hs generalizing p' w' with
  | refl =>
      cases hc
      exact .refl
  | tail hab hbc ih =>
      subst hc
      exact (ih rfl).tail (.prog hbc)

/-- The environment may move at any time. -/
theorem reaches_of_moves {g : γ} {p : Option (Prog ω α)} {w w' : World ω δ}
    (hs : ReflTransGen E.Move w w') : Reaches C E (g, p, w) (g, p, w') := by
  induction hs with
  | refl => exact .refl
  | tail _ hm ih => exact ih.tail (.env hm)

/-- **A call that need not wait completes**, without a move of the device; what the device's reactions
    keep is kept. -/
theorem Verified.completes (hv : Verified C E S Idle) {g g' : γ} {w w' : World ω δ} {p : Prog ω α}
    (hreads : ∀ d n port, ∃ v, E.reads d n port v)
    (hS : (S g').Patient E ω) {P : δ → Prop} (hP : ∀ d n port v, P d → P (E.write d n port v))
    (h : Idle g w) (hc : C.call g w g' w' p) (hb : ¬ (S g').blocked w') (hd : P w'.dev) :
    ∃ a u, Reaches C E (g, none, w) (C.done g' a u, none, u) ∧ Idle (C.done g' a u) u ∧ P u.dev := by
  obtain ⟨a, u, hrun, hidle⟩ := (hv.call _ _ _ _ _ h hc).returns (fun u => hreads u.dev) hS hb
  refine ⟨a, u, ?_, hidle, dev_of_run hP hrun hd⟩
  exact ((ReflTransGen.single (.call hc)).trans (reaches_of_run hrun)).tail .done

end Client

end Lib.Driver
