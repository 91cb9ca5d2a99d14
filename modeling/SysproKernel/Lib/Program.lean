import Mathlib.Logic.Relation
import SysproKernel.Lib.ByteMem
import SysproKernel.Lib.Loop

/-!
# `Lib.Program` — driver programs and their surroundings

A `Prog` is a straight-line C routine as the machine sees it: one constructor per memory access, port
access or printed item, each followed by the rest of the program. Between any two of its steps its
surroundings may move any number of times, so a run is an interleaving at the granularity of single
accesses. What the surroundings are is left to a type `Γ` and a type of states `σ` (`Surroundings`): a
device that shares the memory, or one that sees the history of all accesses.

The proof method is a weakest precondition with the surroundings built in. `Safe E S Q p s` says that
from `s`, whatever the surroundings do in between, every state satisfies `S.always`, every access is
allowed by `S.access`, the program faults only if `S.fault`, it waits only while `S.blocked`, and if it
returns `a` the final state satisfies `Q a`. Two facts make it usable:

* **soundness**: `Safe` is preserved by program steps (`Safe.step`) and by moves of the surroundings
  (`Safe.move`), so it holds along every run (`Safe.interleaves`);
* **triples**: an `Assertion` carries its own stability under the surroundings, and `Triple A p B` has one
  rule per constructor, one for sequencing and one for counted loops.
-/

namespace Lib.Driver

open Lib.ByteMem (Mem)
open Relation (ReflTransGen)

/-! ## Programs -/

/-- A routine returning `α` and printing items of `ω`, one constructor per machine-visible step. -/
inductive Prog (ω α : Type) where
  | ret (a : α)
  | loadThen (a n : Nat) (k : Nat → Prog ω α)
  | storeThen (a n v : Nat) (k : Prog ω α)
  | ioReadThen (n port : Nat) (k : Nat → Prog ω α)
  | ioWriteThen (n port v : Nat) (k : Prog ω α)
  | printThen (o : ω) (k : Prog ω α)
  /-- `while (!ready(*a));` on an `n`-byte location. -/
  | awaitThen (a n : Nat) (ready : Nat → Bool) (k : Prog ω α)
  /-- `while (1);` -/
  | hang
  /-- An exception the routine cannot recover from, such as a division by zero. -/
  | fault

namespace Prog

variable {ω α β : Type}

def bind : Prog ω α → (α → Prog ω β) → Prog ω β
  | ret a,                  f => f a
  | loadThen a n k,         f => loadThen a n (fun v => bind (k v) f)
  | storeThen a n v k,      f => storeThen a n v (bind k f)
  | ioReadThen n port k,    f => ioReadThen n port (fun v => bind (k v) f)
  | ioWriteThen n port v k, f => ioWriteThen n port v (bind k f)
  | printThen o k,          f => printThen o (bind k f)
  | awaitThen a n r k,      f => awaitThen a n r (bind k f)
  | hang,                   _ => hang
  | fault,                  _ => fault

instance : Monad (Prog ω) where
  pure := ret
  bind := bind

/-- Not proved by `rfl`, so that a rewrite stays a step and the kernel does not evaluate `f a`. -/
theorem pure_bind (a : α) (f : α → Prog ω β) : (pure a : Prog ω α) >>= f = f a := by
  have hret : ∀ p : Prog ω α, p = pure a → p >>= f = f a := by
    rintro _ rfl
    rfl
  exact hret _ rfl

theorem bind_assoc {γ : Type} (p : Prog ω α) (f : α → Prog ω β) (g : β → Prog ω γ) :
    p >>= f >>= g = p >>= fun a => f a >>= g := by
  induction p with
  | ret a => rfl
  | loadThen a n k ih => exact congrArg (loadThen a n) (funext ih)
  | storeThen a n v k ih => exact congrArg (storeThen a n v) ih
  | ioReadThen n port k ih => exact congrArg (ioReadThen n port) (funext ih)
  | ioWriteThen n port v k ih => exact congrArg (ioWriteThen n port v) ih
  | printThen o k ih => exact congrArg (printThen o) ih
  | awaitThen a n r k ih => exact congrArg (awaitThen a n r) ih
  | hang => rfl
  | fault => rfl

/-- Read the `n`-byte number at `a`. -/
def load (a n : Nat) : Prog ω Nat := loadThen a n ret

/-- Write the `n` low bytes of `v` at `a`. -/
def store (a n v : Nat) : Prog ω Unit := storeThen a n v (ret ())

def ioRead (n port : Nat) : Prog ω Nat := ioReadThen n port ret

def ioWrite (n port v : Nat) : Prog ω Unit := ioWriteThen n port v (ret ())

def print (o : ω) : Prog ω Unit := printThen o (ret ())

def await (a n : Nat) (ready : Nat → Bool) : Prog ω Unit := awaitThen a n ready (ret ())

/-- The memory range the next step reads or writes. -/
def nextAccess : Prog ω α → Option (Nat × Nat)
  | loadThen a n _    => some (a, n)
  | storeThen a n _ _ => some (a, n)
  | awaitThen a n _ _ => some (a, n)
  | _                 => none

end Prog

/-! ## Runs -/

/-- One access of a program, with the value read or written. -/
inductive Event where
  | load (a n v : Nat)
  | store (a n v : Nat)
  | ioRead (n port v : Nat)
  | ioWrite (n port v : Nat)
  deriving DecidableEq, Repr

/-- Port accesses. -/
def Event.isPort : Event → Bool
  | .ioRead _ _ _ | .ioWrite _ _ _ => true
  | _ => false

/-- The port an access goes to. -/
def Event.port : Event → Option Nat
  | .ioRead _ port _ | .ioWrite _ port _ => some port
  | _ => none

/-- What programs with states of `σ` run beside: the memory of a state, the moves between the steps of the
    program, the values a port may return, and what an access does to the state. -/
class Surroundings (Γ σ : Type) where
  mem : Γ → σ → Mem
  Move : Γ → σ → σ → Prop
  answers : Γ → σ → Nat → Nat → Nat → Prop
  act : Γ → σ → Event → σ

/-- States that take note of printed items. -/
class Output (ω σ : Type) where
  print : σ → ω → σ

open Surroundings Output

variable {Γ ω σ α β : Type} [Surroundings Γ σ] [Output ω σ]

/-- One step of the program. An unready `await` spins in place. -/
inductive Step (E : Γ) : Prog ω α × σ → Prog ω α × σ → Prop
  | load {a n : Nat} {k : Nat → Prog ω α} {s : σ} :
      Step E (.loadThen a n k, s)
        (k (Lib.ByteMem.load (mem E s) a n), act E s (.load a n (Lib.ByteMem.load (mem E s) a n)))
  | store {a n v : Nat} {k : Prog ω α} {s : σ} :
      Step E (.storeThen a n v k, s) (k, act E s (.store a n v))
  | ioRead {n port v : Nat} {k : Nat → Prog ω α} {s : σ} (h : answers E s n port v) :
      Step E (.ioReadThen n port k, s) (k (v % 256 ^ n), act E s (.ioRead n port (v % 256 ^ n)))
  | ioWrite {n port v : Nat} {k : Prog ω α} {s : σ} :
      Step E (.ioWriteThen n port v k, s) (k, act E s (.ioWrite n port v))
  | print {o : ω} {k : Prog ω α} {s : σ} : Step E (.printThen o k, s) (k, Output.print s o)
  | await {a n : Nat} {r : Nat → Bool} {k : Prog ω α} {s : σ}
      (h : r (Lib.ByteMem.load (mem E s) a n) = true) :
      Step E (.awaitThen a n r k, s) (k, act E s (.load a n (Lib.ByteMem.load (mem E s) a n)))

/-- A run of the program alone, from its start to its return. -/
def Returns (E : Γ) (p : Prog ω α) (s : σ) (a : α) (s' : σ) : Prop :=
  ReflTransGen (Step E) (p, s) (.ret a, s')

/-- One step of program or surroundings. -/
inductive Next (E : Γ) : Prog ω α × σ → Prog ω α × σ → Prop
  | prog {c c' : Prog ω α × σ} (h : Step E c c') : Next E c c'
  | env {p : Prog ω α} {s s' : σ} (h : Move E s s') : Next E (p, s) (p, s')

/-- A run of the program beside its surroundings. -/
def Interleaves (E : Γ) : Prog ω α × σ → Prog ω α × σ → Prop := ReflTransGen (Next E)

section Runs

variable {E : Γ} {p p' : Prog ω α} {s s' : σ}

theorem Interleaves.of_run (hs : ReflTransGen (Step E) (p, s) (p', s')) :
    Interleaves E (p, s) (p', s') :=
  ReflTransGen.lift id (fun _ _ h => Next.prog h) _ _ hs

/-- A step of the first part of a sequence. -/
theorem Step.bind (f : α → Prog ω β) (h : Step E (p, s) (p', s')) :
    Step E (p >>= f, s) (p' >>= f, s') := by
  cases h with
  | load => exact .load
  | store => exact .store
  | ioRead hv => exact .ioRead hv
  | ioWrite => exact .ioWrite
  | print => exact .print
  | await hr => exact .await hr

/-- A step of a sequence is one of its first part, unless that has returned. -/
theorem Step.of_bind {f : α → Prog ω β} {q : Prog ω β} (h : Step E (p >>= f, s) (q, s')) :
    (∃ a, p = .ret a) ∨ ∃ p', q = p' >>= f ∧ Step E (p, s) (p', s') := by
  cases p with
  | ret a => exact .inl ⟨a, rfl⟩
  | loadThen a n k =>
      cases h
      exact .inr ⟨_, rfl, .load⟩
  | storeThen a n v k =>
      cases h
      exact .inr ⟨_, rfl, .store⟩
  | ioReadThen n port k =>
      cases h with
      | ioRead hv => exact .inr ⟨_, rfl, .ioRead hv⟩
  | ioWriteThen n port v k =>
      cases h
      exact .inr ⟨_, rfl, .ioWrite⟩
  | printThen o k =>
      cases h
      exact .inr ⟨_, rfl, .print⟩
  | awaitThen a n r k =>
      cases h with
      | await hr => exact .inr ⟨_, rfl, .await hr⟩
  | hang => cases h
  | fault => cases h

theorem Next.bind (f : α → Prog ω β) (h : Next E (p, s) (p', s')) :
    Next E (p >>= f, s) (p' >>= f, s') := by
  cases h with
  | env hm => exact .env hm
  | prog hs => exact .prog (hs.bind f)

/-- A run of the first part of a sequence. -/
theorem Interleaves.bind (f : α → Prog ω β) (h : Interleaves E (p, s) (p', s')) :
    Interleaves E (p >>= f, s) (p' >>= f, s') := by
  generalize hc : (p', s') = c at h
  induction h generalizing p' s' with
  | refl =>
      cases hc
      exact .refl
  | tail _ hstep ih =>
      subst hc
      exact (ih rfl).tail (hstep.bind f)

theorem Next.of_bind {f : α → Prog ω β} {q : Prog ω β} (h : Next E (p >>= f, s) (q, s')) :
    (∃ a, p = .ret a) ∨ ∃ p', q = p' >>= f ∧ Next E (p, s) (p', s') := by
  cases h with
  | env hm => exact .inr ⟨p, rfl, .env hm⟩
  | prog hs =>
      rcases hs.of_bind with hret | ⟨p', rfl, hp⟩
      · exact .inl hret
      · exact .inr ⟨p', rfl, .prog hp⟩

/-- **A sequence that returns** is a run of its first part to its return, then of the second. -/
theorem Interleaves.of_bind {f : α → Prog ω β} {b : β}
    (h : Interleaves E (p >>= f, s) (.ret b, s')) :
    ∃ a v, Interleaves E (p, s) (.ret a, v) ∧ Interleaves E (f a, v) (.ret b, s') := by
  -- from the front: as long as the first part has not returned, each step is one of its own
  generalize hc : (p >>= f, s) = c at h
  induction h using ReflTransGen.head_induction_on generalizing p s with
  | refl =>
      cases p with
      | ret a =>
          obtain ⟨hret, rfl⟩ := Prod.mk.inj hc
          have hfa : f a = .ret b := hret
          refine ⟨a, s, .refl, ?_⟩
          rw [hfa]
          exact .refl
      | loadThen a n k => cases hc
      | storeThen a n v k => cases hc
      | ioReadThen n port k => cases hc
      | ioWriteThen n port v k => cases hc
      | printThen o k => cases hc
      | awaitThen a n r k => cases hc
      | hang => cases hc
      | fault => cases hc
  | @head c c' hstep hrest ih =>
      subst hc
      obtain ⟨q, u⟩ := c'
      rcases hstep.of_bind with ⟨a, rfl⟩ | ⟨p', rfl, hfirst⟩
      · exact ⟨a, s, .refl, .head hstep hrest⟩
      · obtain ⟨a, v, hrun, htail⟩ := ih rfl
        exact ⟨a, v, .head hfirst hrun, htail⟩

end Runs

/-! ## Safety -/

/-- What a routine is held to besides its result. -/
structure Spec (σ : Type) where
  /-- holds in every state of the run -/
  always : σ → Prop
  /-- the memory ranges the program may access -/
  access : Nat → Nat → Prop := fun _ _ => True
  /-- the states in which the program may wait -/
  blocked : σ → Prop
  /-- whether the program may fault -/
  fault : Prop := False

section Safety

variable {E : Γ} {S : Spec σ} {Q Q' : α → σ → Prop} {p p' : Prog ω α} {s s' : σ}

/-- `φ` holds after any number of moves of the surroundings, and so does what must always hold. -/
def Throughout (E : Γ) (S : Spec σ) (s : σ) (φ : σ → Prop) : Prop :=
  ∀ s', ReflTransGen (Move E) s s' → S.always s' ∧ φ s'

theorem Throughout.now {φ : σ → Prop} (h : Throughout E S s φ) : S.always s ∧ φ s := h s .refl

theorem Throughout.move {φ : σ → Prop} (h : Throughout E S s φ) (hm : Move E s s') :
    Throughout E S s' φ :=
  fun u hu => h u (hu.head hm)

theorem Throughout.mono {φ ψ : σ → Prop} (h : Throughout E S s φ) (himp : ∀ u, φ u → ψ u) :
    Throughout E S s ψ :=
  fun u hu => ⟨(h u hu).1, himp u (h u hu).2⟩

/-- Every interleaving of the program with its surroundings is safe and ends in `Q`. -/
def Safe (E : Γ) (S : Spec σ) (Q : α → σ → Prop) : Prog ω α → σ → Prop
  | .ret a, s => Throughout E S s (Q a)
  | .loadThen a n k, s => Throughout E S s fun s =>
      S.access a n ∧ Safe E S Q (k (Lib.ByteMem.load (mem E s) a n))
        (act E s (.load a n (Lib.ByteMem.load (mem E s) a n)))
  | .storeThen a n v k, s => Throughout E S s fun s =>
      S.access a n ∧ Safe E S Q k (act E s (.store a n v))
  | .ioReadThen n port k, s => Throughout E S s fun s =>
      ∀ v, answers E s n port v → Safe E S Q (k (v % 256 ^ n)) (act E s (.ioRead n port (v % 256 ^ n)))
  | .ioWriteThen n port v k, s => Throughout E S s fun s =>
      Safe E S Q k (act E s (.ioWrite n port v))
  | .printThen o k, s => Throughout E S s fun s => Safe E S Q k (Output.print s o)
  | .awaitThen a n r k, s => Throughout E S s fun s =>
      S.access a n ∧ (r (Lib.ByteMem.load (mem E s) a n) = true →
        Safe E S Q k (act E s (.load a n (Lib.ByteMem.load (mem E s) a n)))) ∧
      (r (Lib.ByteMem.load (mem E s) a n) = false → S.blocked s)
  | .hang, s => Throughout E S s S.blocked
  | .fault, s => Throughout E S s fun _ => S.fault

/-- **Safety survives the surroundings.** -/
theorem Safe.move (h : Safe E S Q p s) (hm : Move E s s') : Safe E S Q p s' := by
  cases p with
  | ret a => exact Throughout.move h hm
  | loadThen a n k => exact Throughout.move h hm
  | storeThen a n v k => exact Throughout.move h hm
  | ioReadThen n port k => exact Throughout.move h hm
  | ioWriteThen n port v k => exact Throughout.move h hm
  | printThen o k => exact Throughout.move h hm
  | awaitThen a n r k => exact Throughout.move h hm
  | hang => exact Throughout.move h hm
  | fault => exact Throughout.move h hm

/-- **Safety survives the program's own steps.** -/
theorem Safe.step (h : Safe E S Q p s) (hs : Step E (p, s) (p', s')) : Safe E S Q p' s' := by
  cases hs with
  | load => exact (Throughout.now h).2.2
  | store => exact (Throughout.now h).2.2
  | ioRead hv => exact (Throughout.now h).2 _ hv
  | ioWrite => exact (Throughout.now h).2
  | print => exact (Throughout.now h).2
  | await hr => exact (Throughout.now h).2.2.1 hr

/-- **Safety holds along every interleaving.** -/
theorem Safe.interleaves (h : Safe E S Q p s) (hs : Interleaves E (p, s) (p', s')) :
    Safe E S Q p' s' := by
  generalize hc : (p', s') = c at hs
  induction hs generalizing p' s' with
  | refl =>
      cases hc
      exact h
  | tail _ hstep ih =>
      subst hc
      cases hstep with
      | prog hp => exact (ih rfl).step hp
      | env hm => exact (ih rfl).move hm

theorem Safe.run (h : Safe E S Q p s) (hs : ReflTransGen (Step E) (p, s) (p', s')) :
    Safe E S Q p' s' :=
  h.interleaves (.of_run hs)

theorem Safe.always (h : Safe E S Q p s) : S.always s := by
  cases p with
  | ret a => exact (Throughout.now h).1
  | loadThen a n k => exact (Throughout.now h).1
  | storeThen a n v k => exact (Throughout.now h).1
  | ioReadThen n port k => exact (Throughout.now h).1
  | ioWriteThen n port v k => exact (Throughout.now h).1
  | printThen o k => exact (Throughout.now h).1
  | awaitThen a n r k => exact (Throughout.now h).1
  | hang => exact (Throughout.now h).1
  | fault => exact (Throughout.now h).1

theorem Safe.ret {a : α} (h : Safe E S Q (.ret a : Prog ω α) s) : Q a s := (Throughout.now h).2

theorem Safe.ne_fault (h : Safe E S Q p s) (hf : ¬ S.fault) : p ≠ .fault := by
  rintro rfl
  exact hf (Throughout.now h).2

/-- The next access of a safe program is an allowed one. -/
theorem Safe.access {a n : Nat} (h : Safe E S Q p s) (ha : p.nextAccess = some (a, n)) :
    S.access a n := by
  cases p with
  | loadThen a n k => cases ha; exact (Throughout.now h).2.1
  | storeThen a n v k => cases ha; exact (Throughout.now h).2.1
  | awaitThen a n r k => cases ha; exact (Throughout.now h).2.1
  | ret a => cases ha
  | ioReadThen n port k => cases ha
  | ioWriteThen n port v k => cases ha
  | printThen o k => cases ha
  | hang => cases ha
  | fault => cases ha

/-- The program's own steps never bring about a wait, and it may not fault. -/
structure Spec.Patient (S : Spec σ) (E : Γ) (ω : Type) [Output ω σ] : Prop where
  act : ∀ s e, S.blocked (Surroundings.act E s e) → S.blocked s
  print : ∀ s (o : ω), S.blocked (Output.print s o) → S.blocked s
  fault : ¬ S.fault

theorem Spec.patient_of_unblocked (hb : ∀ s, ¬ S.blocked s) (hf : ¬ S.fault) : S.Patient E ω :=
  ⟨fun _ _ hb' => absurd hb' (hb _), fun _ _ hb' => absurd hb' (hb _), hf⟩

/-- **Progress.** A safe program outside the states it may wait in returns, without the help of its
    surroundings, and in a state satisfying its postcondition. -/
theorem Safe.returns (hanswers : ∀ (s : σ) n port, ∃ v, answers E s n port v) (hS : S.Patient E ω)
    (h : Safe E S Q p s) (hb : ¬ S.blocked s) : ∃ a s', Returns E p s a s' ∧ Q a s' := by
  -- along the program: every constructor has a step, and none of them ends in a blocked state
  have first : ∀ {p p' : Prog ω α} {s s' : σ}, Step E (p, s) (p', s') →
      (∃ a u, Returns E p' s' a u ∧ Q a u) → ∃ a u, Returns E p s a u ∧ Q a u := by
    rintro p p' s s' hs ⟨a, u, hr, hq⟩
    exact ⟨a, u, ReflTransGen.head hs hr, hq⟩
  have hacted : ∀ {s : σ} {e : Event}, ¬ S.blocked s → ¬ S.blocked (act E s e) :=
    fun hb hb' => hb (hS.act _ _ hb')
  induction p generalizing s with
  | ret a => exact ⟨a, s, .refl, h.ret⟩
  | loadThen a n k ih => exact first .load (ih _ (h.step .load) (hacted hb))
  | storeThen a n v k ih => exact first .store (ih (h.step .store) (hacted hb))
  | ioReadThen n port k ih =>
      obtain ⟨v, hv⟩ := hanswers s n port
      exact first (.ioRead hv) (ih _ (h.step (.ioRead hv)) (hacted hb))
  | ioWriteThen n port v k ih => exact first .ioWrite (ih (h.step .ioWrite) (hacted hb))
  | printThen o k ih => exact first .print (ih (h.step .print) (fun hb' => hb (hS.print _ _ hb')))
  | awaitThen a n r k ih =>
      -- spinning would mean that the state is blocked
      cases hr : r (Lib.ByteMem.load (mem E s) a n) with
      | true => exact first (.await hr) (ih (h.step (.await hr)) (hacted hb))
      | false => exact absurd ((Throughout.now h).2.2.2 hr) hb
  | hang => exact absurd (Throughout.now h).2 hb
  | fault => exact absurd (Throughout.now h).2 hS.fault

theorem Safe.mono (h : Safe E S Q p s) (himp : ∀ a u, Q a u → Q' a u) : Safe E S Q' p s := by
  induction p generalizing s with
  | ret a => exact Throughout.mono h (himp a)
  | loadThen a n k ih => exact Throughout.mono h (fun u hu => ⟨hu.1, ih _ hu.2⟩)
  | storeThen a n v k ih => exact Throughout.mono h (fun u hu => ⟨hu.1, ih hu.2⟩)
  | ioReadThen n port k ih => exact Throughout.mono h (fun u hu v hv => ih _ (hu v hv))
  | ioWriteThen n port v k ih => exact Throughout.mono h (fun u hu => ih hu)
  | printThen o k ih => exact Throughout.mono h (fun u hu => ih hu)
  | awaitThen a n r k ih =>
      exact Throughout.mono h (fun u hu => ⟨hu.1, fun hr => ih (hu.2.1 hr), hu.2.2⟩)
  | hang => exact h
  | fault => exact h

/-- **Sequencing.** -/
theorem Safe.bind {f : α → Prog ω β} {R : β → σ → Prop}
    (h : Safe E S (fun a u => Safe E S R (f a) u) p s) : Safe E S R (p >>= f) s := by
  induction p generalizing s with
  | ret a => exact h.ret
  | loadThen a n k ih => exact Throughout.mono h (fun u hu => ⟨hu.1, ih _ hu.2⟩)
  | storeThen a n v k ih => exact Throughout.mono h (fun u hu => ⟨hu.1, ih hu.2⟩)
  | ioReadThen n port k ih => exact Throughout.mono h (fun u hu v hv => ih _ (hu v hv))
  | ioWriteThen n port v k ih => exact Throughout.mono h (fun u hu => ih hu)
  | printThen o k ih => exact Throughout.mono h (fun u hu => ih hu)
  | awaitThen a n r k ih =>
      exact Throughout.mono h (fun u hu => ⟨hu.1, fun hr => ih (hu.2.1 hr), hu.2.2⟩)
  | hang => exact h
  | fault => exact h

end Safety

/-! ## Assertions and triples -/

/-- A property of states that the surroundings cannot falsify and that implies what must always hold. -/
structure Assertion (E : Γ) (S : Spec σ) where
  holds : σ → Prop
  stable : ∀ s s', holds s → Move E s s' → holds s'
  always : ∀ s, holds s → S.always s

/-- `{A} p {B}` in the presence of the surroundings. A structure, so that unification never runs `p`. -/
structure Triple {E : Γ} {S : Spec σ} (A : Assertion E S) (p : Prog ω α)
    (B : α → Assertion E S) : Prop where
  safe : ∀ s, A.holds s → Safe E S (fun a => (B a).holds) p s

section Triples

variable {E : Γ} {S : Spec σ} {A A' : Assertion E S} {B B' : α → Assertion E S}

theorem Assertion.throughout {φ : σ → Prop} {s : σ} (hs : A.holds s) (h : ∀ u, A.holds u → φ u) :
    Throughout E S s φ := by
  intro u hu
  have hA : A.holds u := by
    induction hu with
    | refl => exact hs
    | tail _ hm ih => exact A.stable _ _ ih hm
  exact ⟨A.always u hA, h u hA⟩

/-- The assertion together with a fact that is not about the state. -/
def Assertion.given (A : Assertion E S) (φ : Prop) : Assertion E S :=
  { holds := fun s => φ ∧ A.holds s
    stable := fun s s' h hm => ⟨h.1, A.stable s s' h.2 hm⟩
    always := fun s h => A.always s h.2 }

theorem Triple.ret {a : α} (h : ∀ s, A.holds s → (B a).holds s) : Triple A (pure a : Prog ω α) B :=
  ⟨fun _ hs => Assertion.throughout hs h⟩

theorem Triple.bind {p : Prog ω α} {f : α → Prog ω β} {C : β → Assertion E S} (hp : Triple A p B)
    (hf : ∀ a, Triple (B a) (f a) C) : Triple A (p >>= f) C :=
  ⟨fun s hs => Safe.bind ((hp.safe s hs).mono (fun a => (hf a).safe))⟩

/-- Sequencing after a program whose value is known. -/
theorem Triple.bind_eq {p : Prog ω α} {f : α → Prog ω β} {C : β → Assertion E S} {v : α}
    (hp : Triple A p (fun a => A'.given (a = v))) (hf : Triple A' (f v) C) : Triple A (p >>= f) C := by
  apply hp.bind
  intro a
  constructor
  rintro s ⟨rfl, hs⟩
  exact hf.safe s hs

theorem Triple.weaken {p : Prog ω α} (h : Triple A p B) (hpre : ∀ s, A'.holds s → A.holds s)
    (hpost : ∀ a s, (B a).holds s → (B' a).holds s) : Triple A' p B' :=
  ⟨fun s hs => (h.safe s (hpre s hs)).mono hpost⟩

/-- A fact the precondition implies may be assumed. -/
theorem Triple.assume {p : Prog ω α} (φ : Prop) (h : ∀ s, A.holds s → φ) (hp : φ → Triple A p B) :
    Triple A p B :=
  ⟨fun s hs => (hp (h s hs)).safe s hs⟩

/-- Case distinction on a fact the precondition provides. -/
theorem Triple.elim {ι : Type} {p : Prog ω α} (A' : ι → Assertion E S)
    (h : ∀ s, A.holds s → ∃ i, (A' i).holds s) (hp : ∀ i, Triple (A' i) p B) : Triple A p B := by
  constructor
  intro s hs
  obtain ⟨i, hi⟩ := h s hs
  exact (hp i).safe s hi

theorem Triple.load {a n : Nat} {B : Nat → Assertion E S} (hacc : S.access a n)
    (h : ∀ s, A.holds s → (B (Lib.ByteMem.load (mem E s) a n)).holds
      (act E s (.load a n (Lib.ByteMem.load (mem E s) a n)))) :
    Triple A (Prog.load a n : Prog ω Nat) B :=
  ⟨fun _ hs => Assertion.throughout hs
    (fun u hu => ⟨hacc, Assertion.throughout (h u hu) (fun _ h' => h')⟩)⟩

/-- A load whose value the precondition determines. -/
theorem Triple.load_known {a n v : Nat} {f : Nat → Prog ω β} {C : β → Assertion E S}
    (hacc : S.access a n) (hval : ∀ s, A.holds s → Lib.ByteMem.load (mem E s) a n = v)
    (hact : ∀ s, A.holds s → A'.holds (act E s (.load a n v))) (hf : Triple A' (f v) C) :
    Triple A (Prog.load a n >>= f) C := by
  constructor
  intro s hs
  exact Assertion.throughout hs
    (fun u hu => ⟨hacc, by rw [hval u hu]; exact hf.safe _ (hact u hu)⟩)

variable {B₀ : Unit → Assertion E S}

theorem Triple.store {a n v : Nat} (hacc : S.access a n)
    (h : ∀ s, A.holds s → (B₀ ()).holds (act E s (.store a n v))) :
    Triple A (Prog.store a n v : Prog ω Unit) B₀ :=
  ⟨fun _ hs => Assertion.throughout hs
    (fun u hu => ⟨hacc, Assertion.throughout (h u hu) (fun _ h' => h')⟩)⟩

/-- A port read: the rest of the program is checked for every answer. -/
theorem Triple.ioRead_each {n port : Nat} {f : Nat → Prog ω β} {C : β → Assertion E S}
    (B : Nat → Assertion E S)
    (hact : ∀ s v, A.holds s → answers E s n port v →
      (B v).holds (act E s (.ioRead n port (v % 256 ^ n))))
    (hf : ∀ s v, A.holds s → answers E s n port v → Triple (B v) (f (v % 256 ^ n)) C) :
    Triple A (Prog.ioRead n port >>= f) C :=
  ⟨fun _ hs => Assertion.throughout hs
    (fun u hu v hv => (hf u v hu hv).safe _ (hact u v hu hv))⟩

/-- A port read whose answer the precondition determines. -/
theorem Triple.ioRead_known {n port v : Nat} {f : Nat → Prog ω β} {C : β → Assertion E S}
    (hval : ∀ s u, A.holds s → answers E s n port u → u % 256 ^ n = v)
    (hact : ∀ s, A.holds s → A'.holds (act E s (.ioRead n port v))) (hf : Triple A' (f v) C) :
    Triple A (Prog.ioRead n port >>= f) C := by
  refine Triple.ioRead_each (fun _ => A') ?_ ?_
  · intro s u hs hu
    rw [hval s u hs hu]
    exact hact s hs
  · intro s u hs hu
    rw [hval s u hs hu]
    exact hf

theorem Triple.ioWrite {n port v : Nat}
    (h : ∀ s, A.holds s → (B₀ ()).holds (act E s (.ioWrite n port v))) :
    Triple A (Prog.ioWrite n port v : Prog ω Unit) B₀ :=
  ⟨fun _ hs => Assertion.throughout hs
    (fun u hu => Assertion.throughout (h u hu) (fun _ h' => h'))⟩

theorem Triple.print {o : ω} (h : ∀ s, A.holds s → (B₀ ()).holds (Output.print s o)) :
    Triple A (Prog.print o) B₀ :=
  ⟨fun _ hs => Assertion.throughout hs
    (fun u hu => Assertion.throughout (h u hu) (fun _ h' => h'))⟩

theorem Triple.await {a n : Nat} {r : Nat → Bool} (hacc : S.access a n)
    (hready : ∀ s, A.holds s → r (Lib.ByteMem.load (mem E s) a n) = true →
      (B₀ ()).holds (act E s (.load a n (Lib.ByteMem.load (mem E s) a n))))
    (hwait : ∀ s, A.holds s → r (Lib.ByteMem.load (mem E s) a n) = false → S.blocked s) :
    Triple A (Prog.await a n r : Prog ω Unit) B₀ :=
  ⟨fun _ hs => Assertion.throughout hs (fun u hu =>
    ⟨hacc, fun hr => Assertion.throughout (hready u hu hr) (fun _ h' => h'), hwait u hu⟩)⟩

theorem Triple.hang (h : ∀ s, A.holds s → S.blocked s) : Triple A (Prog.hang : Prog ω α) B :=
  ⟨fun _ hs => Assertion.throughout hs h⟩

/-- **Loop rule.** An assertion indexed by the number of finished iterations. -/
theorem Triple.forLoop {τ : Type} {n : Nat} {body : Nat → τ → Prog ω τ} {x : τ}
    (I : Nat → τ → Assertion E S) (hbody : ∀ i < n, ∀ x, Triple (I i x) (body i x) (I (i + 1))) :
    Triple (I 0 x) (Lib.Loop.forLoop n body x) (I n) := by
  induction n with
  | zero => exact Triple.ret (fun _ hs => hs)
  | succ n ih => exact (ih (fun i hi => hbody i (by omega))).bind (hbody n (by omega))

end Triples

-- from here on by its rules only, so that unification never runs a program
attribute [irreducible] Safe

end Lib.Driver
