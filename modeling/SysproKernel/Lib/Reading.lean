import Mathlib.Init

/-!
# `Lib.Reading` — reading a text back

A `Reader` takes what it reads off the front of a list of tokens and leaves the rest. `Reads r text a`
says that `r` reads `text` as `a` whatever follows, so that the readers of consecutive parts of a text
compose (`Reads.bind`, `Reads.each`) and a round trip is proved in the order in which the text is written.
-/

namespace Lib.Reading

/-- A reader of `α` from a list of tokens; `none` when the text is not of its form. -/
abbrev Reader (τ α : Type) := StateT (List τ) Option α

variable {τ α β : Type}

/-! ## Readers -/

/-- The next `n` tokens. -/
def take (n : Nat) : Reader τ (List τ) := fun text =>
  if n ≤ text.length then some (text.take n, text.drop n) else none

/-- The given tokens. -/
def expect [BEq τ] (literal : List τ) : Reader τ Unit := fun text =>
  if literal.isPrefixOf text then some ((), text.drop literal.length) else none

/-- The tokens before `stop`; `stop` itself is read and dropped. -/
def takeUntil [DecidableEq τ] (stop : τ) : Reader τ (List τ)
  | []        => none
  | t :: text =>
      if t = stop then some ([], text)
      else (takeUntil stop text).map fun r => (t :: r.1, r.2)

/-- A value that has already been found. -/
def ofOption (a : Option α) : Reader τ α := fun text => a.map fun a => (a, text)

/-- `r 0`, …, `r (n - 1)`, one after another. -/
def each (r : Nat → Reader τ α) : Nat → Reader τ (List α)
  | 0     => pure []
  | n + 1 => do
      let as ← each r n
      let a ← r n
      return as ++ [a]

/-! ## What a reader makes of a text -/

/-- `r` reads `text` as `a`, and leaves what follows. -/
structure Reads (r : Reader τ α) (text : List τ) (a : α) : Prop where
  run : ∀ rest, r (text ++ rest) = some (a, rest)

theorem Reads.pure (a : α) : Reads (pure a : Reader τ α) [] a := ⟨fun _ => rfl⟩

theorem Reads.bind {r : Reader τ α} {f : α → Reader τ β} {text text' : List τ} {a : α} {b : β}
    (h : Reads r text a) (h' : Reads (f a) text' b) : Reads (r >>= f) (text ++ text') b := by
  constructor
  intro rest
  have hfirst := h.run (text' ++ rest)
  show ((r (text ++ text' ++ rest)).bind fun x => f x.1 x.2) = some (b, rest)
  rw [List.append_assoc, hfirst]
  exact h'.run rest

/-- The last part of a text, followed by a value computed from the parts. -/
theorem Reads.map {r : Reader τ α} {f : α → β} {text : List τ} {a : α} (h : Reads r text a) :
    Reads (r >>= fun a => Pure.pure (f a)) text (f a) := by
  have hall : Reads (r >>= fun a => (Pure.pure (f a) : Reader τ β)) (text ++ []) (f a) :=
    h.bind (Reads.pure (f a))
  rwa [List.append_nil] at hall

theorem Reads.take {text : List τ} {n : Nat} (h : text.length = n) : Reads (take n) text text := by
  constructor
  intro rest
  subst h
  unfold Reading.take
  rw [if_pos (by rw [List.length_append]; exact Nat.le_add_right ..), List.take_left, List.drop_left]

theorem Reads.expect [BEq τ] [LawfulBEq τ] (literal : List τ) : Reads (expect literal) literal () := by
  constructor
  intro rest
  have hprefix : literal.isPrefixOf (literal ++ rest) = true :=
    List.isPrefixOf_iff_prefix.mpr (List.prefix_append ..)
  unfold Reading.expect
  rw [if_pos hprefix, List.drop_left]

theorem Reads.takeUntil [DecidableEq τ] {stop : τ} {text : List τ} (h : stop ∉ text) :
    Reads (takeUntil stop) (text ++ [stop]) text := by
  constructor
  intro rest
  induction text with
  | nil => exact if_pos rfl
  | cons t text ih =>
      have hne : t ≠ stop := fun heq => h (heq ▸ List.mem_cons_self)
      have hrest := ih (fun hmem => h (List.mem_cons_of_mem t hmem))
      show (if t = stop then _ else (Reading.takeUntil stop (text ++ [stop] ++ rest)).map _) = _
      rw [if_neg hne, hrest]
      rfl

theorem Reads.ofOption {a : Option α} {b : α} (h : a = some b) :
    Reads (ofOption a : Reader τ α) [] b := by
  subst h
  exact ⟨fun _ => rfl⟩

/-- **Repetition.** The parts in order, one for each index. -/
theorem Reads.each {r : Nat → Reader τ α} {text : Nat → List τ} {a : Nat → α} {n : Nat}
    (h : ∀ i < n, Reads (r i) (text i) (a i)) :
    Reads (each r n) ((List.range n).flatMap text) ((List.range n).map a) := by
  induction n with
  | zero => exact Reads.pure []
  | succ n ih =>
      have hinit := ih (fun i hi => h i (Nat.lt_succ_of_lt hi))
      have hlast := h n (Nat.lt_succ_self n)
      rw [List.range_succ, List.flatMap_append, List.map_append, List.flatMap_singleton]
      exact hinit.bind hlast.map

end Lib.Reading
