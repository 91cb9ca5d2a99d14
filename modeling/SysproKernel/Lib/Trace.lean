import SysproKernel.Lib.Program

/-!
# `Lib.Trace` — driver programs with the history of their accesses

The surroundings of a program are a device that may look at every memory and port access made so far
(`Host`): what a port answers, and what the device does to memory and to its own state, may depend on
everything the program has done.

`PortsIn` is the special case of a property of each single port access: it follows the text of the program
and needs no state at all.
-/

namespace Lib.Trace

open Lib.ByteMem (Mem)
open Lib.Driver
open Relation (ReflTransGen)

attribute [local semireducible] Safe

/-! ## Histories -/

/-- The port accesses of a history. -/
def ports (h : List Event) : List Event := h.filter Event.isPort

theorem ports_snoc_port {h : List Event} {e : Event} (he : e.isPort = true) :
    ports (h ++ [e]) = ports h ++ [e] := by
  simp [ports, he]

theorem ports_snoc_mem {h : List Event} {e : Event} (he : e.isPort = false) :
    ports (h ++ [e]) = ports h := by
  simp [ports, he]

/-- The value last written to a port. -/
def lastWritten (port : Nat) (h : List Event) : Option Nat :=
  h.foldl (fun latest e => match e with
    | .ioWrite _ port' v => if port' = port then some v else latest
    | _ => latest) none

theorem lastWritten_write {port n v : Nat} {h : List Event} :
    lastWritten port (h ++ [.ioWrite n port v]) = some v := by
  simp [lastWritten]

theorem lastWritten_read {port n a v : Nat} {h : List Event} :
    lastWritten port (h ++ [.ioRead n a v]) = lastWritten port h := by
  simp [lastWritten]

theorem lastWritten_other {port n a v : Nat} {h : List Event} (hne : a ≠ port) :
    lastWritten port (h ++ [.ioWrite n a v]) = lastWritten port h := by
  simp [lastWritten, hne]

/-- Memory, the device's own state, and the accesses made so far, the latest last. -/
structure State (δ : Type) where
  mem : Mem
  dev : δ
  past : List Event

def State.log {δ : Type} (s : State δ) (e : Event) : State δ := { s with past := s.past ++ [e] }

/-- The surroundings: the moves of a device and the answers of the ports, after a given history. -/
structure Host (δ : Type) where
  step : List Event → Mem → δ → Mem → δ → Prop
  answers : List Event → δ → Nat → Nat → Nat → Prop

variable {ω δ α β : Type}

/-- One move of the surroundings. -/
inductive Host.Move (H : Host δ) : State δ → State δ → Prop
  | intro {s : State δ} {m : Mem} {d : δ} (h : H.step s.past s.mem s.dev m d) :
      Host.Move H s { s with mem := m, dev := d }

/-- Every access is logged; a store changes memory before. -/
def State.act (s : State δ) : Event → State δ
  | .store a n v => { s with mem := Lib.ByteMem.store s.mem a n v }.log (.store a n v)
  | e            => s.log e

instance : Surroundings (Host δ) (State δ) where
  mem := fun _ s => s.mem
  Move := Host.Move
  answers := fun H s => H.answers s.past s.dev
  act := fun _ => State.act

/-- What is printed is not recorded. -/
instance : Output ω (State δ) := ⟨fun s _ => s⟩

/-- Every move and every answer of the one host is possible at the other. -/
structure Host.Within (H H' : Host δ) : Prop where
  step : ∀ h m d m' d', H.step h m d m' d' → H'.step h m d m' d'
  answers : ∀ h d n port v, H.answers h d n port v → H'.answers h d n port v

/-- What a program can do beside the one host, it can do beside the other. -/
theorem Host.Within.interleaves {H H' : Host δ} {c c' : Prog ω α × State δ} (hH : H.Within H')
    (h : Interleaves H c c') : Interleaves H' c c' := by
  refine ReflTransGen.mono ?_ _ _ h
  intro _ _ hnext
  cases hnext with
  | env hm =>
      obtain ⟨hstep⟩ := hm
      exact .env (Host.Move.intro (hH.step _ _ _ _ _ hstep))
  | prog hs =>
      apply Next.prog
      cases hs with
      | load => exact .load
      | store => exact .store
      | ioRead hv => exact .ioRead (hH.answers _ _ _ _ _ hv)
      | ioWrite => exact .ioWrite
      | print => exact .print
      | await hr => exact .await hr

/-- Printing changes nothing. -/
theorem print_silent {H : Host δ} {S : Spec (State δ)} {A : Assertion H S} {o : ω} :
    Triple A (Prog.print o) (fun _ => A) :=
  Triple.print (fun _ hs => hs)

/-! ## The ports of a program -/

/-- Every port access of the program, whatever it reads, goes to a port in `P`. -/
def PortsIn (P : Nat → Prop) : Prog ω α → Prop
  | .ret _ => True
  | .loadThen _ _ k => ∀ v, PortsIn P (k v)
  | .storeThen _ _ _ k => PortsIn P k
  | .ioReadThen _ port k => P port ∧ ∀ v, PortsIn P (k v)
  | .ioWriteThen _ port _ k => P port ∧ PortsIn P k
  | .printThen _ k => PortsIn P k
  | .awaitThen _ _ _ k => PortsIn P k
  | .hang => True
  | .fault => True

section Ports

variable {P : Nat → Prop} {p p' : Prog ω α} {s s' : State δ} {H : Host δ}

theorem PortsIn.bind {f : α → Prog ω β} (hp : PortsIn P p) (hf : ∀ a, PortsIn P (f a)) :
    PortsIn P (p >>= f) := by
  induction p with
  | ret a => exact hf a
  | loadThen a n k ih => exact fun v => ih v (hp v)
  | storeThen a n v k ih => exact ih hp
  | ioReadThen n port k ih => exact ⟨hp.1, fun v => ih v (hp.2 v)⟩
  | ioWriteThen n port v k ih => exact ⟨hp.1, ih hp.2⟩
  | printThen o k ih => exact ih hp
  | awaitThen a n r k ih => exact ih hp
  | hang => trivial
  | fault => trivial

theorem PortsIn.ret {a : α} : PortsIn P (pure a : Prog ω α) := trivial

theorem PortsIn.await {a n : Nat} {r : Nat → Bool} : PortsIn P (Prog.await a n r : Prog ω Unit) :=
  trivial

theorem PortsIn.hang : PortsIn P (Prog.hang : Prog ω α) := trivial

theorem PortsIn.fault : PortsIn P (Prog.fault : Prog ω α) := trivial

theorem PortsIn.load {a n : Nat} : PortsIn P (Prog.load a n : Prog ω Nat) := fun _ => trivial

theorem PortsIn.store {a n v : Nat} : PortsIn P (Prog.store a n v : Prog ω Unit) := trivial

theorem PortsIn.ioRead {n port : Nat} (h : P port) : PortsIn P (Prog.ioRead n port : Prog ω Nat) :=
  ⟨h, fun _ => trivial⟩

theorem PortsIn.ioWrite {n port v : Nat} (h : P port) :
    PortsIn P (Prog.ioWrite n port v : Prog ω Unit) :=
  ⟨h, trivial⟩

theorem PortsIn.print {o : ω} : PortsIn P (Prog.print o) := trivial

theorem PortsIn.forLoop {σ : Type} {n : Nat} {body : Nat → σ → Prog ω σ} {x : σ}
    (hbody : ∀ i < n, ∀ x, PortsIn P (body i x)) : PortsIn P (Lib.Loop.forLoop n body x) := by
  induction n with
  | zero => trivial
  | succ n ih => exact (ih (fun i hi => hbody i (by omega))).bind (hbody n (by omega))

/-- The port accesses of a history go to ports in `P`. -/
def PastIn (P : Nat → Prop) (h : List Event) : Prop := ∀ e ∈ h, ∀ port, e.port = some port → P port

theorem PastIn.snoc {h : List Event} {e : Event} (hh : PastIn P h)
    (he : ∀ port, e.port = some port → P port) : PastIn P (h ++ [e]) := by
  intro e' he'
  rcases List.mem_append.mp he' with hmem | hmem
  · exact hh e' hmem
  · rw [List.mem_singleton.mp hmem]
    exact he

theorem PastIn.mono {P' : Nat → Prop} {h : List Event} (hh : PastIn P h) (himp : ∀ a, P a → P' a) :
    PastIn P' h :=
  fun e he port hport => himp port (hh e he port hport)

/-- The history is kept to the ports in `P`; the program may stop anywhere. -/
def portSpec (δ : Type) (P : Nat → Prop) (blocked : Prop) : Spec (State δ) :=
  { always := fun s => PastIn P s.past, blocked := fun _ => blocked, fault := blocked }

/-- **The accesses of a run** go to the ports of the program. -/
theorem PortsIn.safe (hp : PortsIn P p) (hpast : PastIn P s.past) :
    Safe H (portSpec δ P True) (fun _ s => PastIn P s.past) p s := by
  have hmoves : ∀ {s s' : State δ}, ReflTransGen H.Move s s' → PastIn P s.past → PastIn P s'.past := by
    intro s s' hm hs
    induction hm with
    | refl => exact hs
    | tail _ hlast ih =>
        cases hlast
        exact ih
  have hsnoc : ∀ {s : State δ} {e : Event}, PastIn P s.past → (∀ port, e.port = some port → P port) →
      PastIn P (s.log e).past := fun hs he => hs.snoc he
  induction p generalizing s with
  | ret a => exact fun u hu => ⟨hmoves hu hpast, hmoves hu hpast⟩
  | loadThen a n k ih =>
      exact fun u hu => ⟨hmoves hu hpast, trivial,
        ih _ (hp _) (hsnoc (e := .load a n (Lib.ByteMem.load u.mem a n)) (hmoves hu hpast) (by rintro _ ⟨⟩))⟩
  | storeThen a n v k ih =>
      intro u hu
      have hnow : PastIn P u.past := hmoves hu hpast
      have hstored : PastIn P { u with mem := Lib.ByteMem.store u.mem a n v }.past := hnow
      exact ⟨hnow, trivial, ih hp (hsnoc (e := .store a n v) hstored (by rintro _ ⟨⟩))⟩
  | ioReadThen n port k ih =>
      exact fun u hu => ⟨hmoves hu hpast, fun v _ =>
        ih _ (hp.2 _) (hsnoc (hmoves hu hpast) (by rintro _ ⟨⟩; exact hp.1))⟩
  | ioWriteThen n port v k ih =>
      exact fun u hu => ⟨hmoves hu hpast,
        ih hp.2 (hsnoc (hmoves hu hpast) (by rintro _ ⟨⟩; exact hp.1))⟩
  | printThen o k ih => exact fun u hu => ⟨hmoves hu hpast, ih hp (hmoves hu hpast)⟩
  | awaitThen a n r k ih =>
      exact fun u hu => ⟨hmoves hu hpast, trivial, fun _ => ih hp
        (hsnoc (e := .load a n (Lib.ByteMem.load u.mem a n)) (hmoves hu hpast) (by rintro _ ⟨⟩)),
        fun _ => trivial⟩
  | hang => exact fun u hu => ⟨hmoves hu hpast, trivial⟩
  | fault => exact fun u hu => ⟨hmoves hu hpast, trivial⟩

/-- The accesses so far went to the ports in `P`. -/
def Assertion.pastIn (H : Host δ) (P : Nat → Prop) : Assertion H (portSpec δ P True) :=
  { holds := fun s => PastIn P s.past
    stable := by
      rintro s s' hs ⟨-⟩
      exact hs
    always := fun _ hs => hs }

theorem PortsIn.triple {A : Assertion H (portSpec δ P True)} (hp : PortsIn P p) :
    Triple A p (fun _ => Assertion.pastIn H P) :=
  ⟨fun s hs => hp.safe (A.always s hs)⟩

end Ports

-- from here on by its rules only, so that unification never runs a program
attribute [irreducible] PortsIn

end Lib.Trace
