import Mathlib.Tactic.Common

/-!
# Command — fallible commands on a state

A `Command` answers or fails, and leaves a state in either case: what was done before an error is
not undone.  This file defines

* the commands and their `do` notation (`Monad`, `MonadExcept`, `MonadState`);
* `attempt` — run a command and hand on its outcome instead of failing;
* `Keeps I m` — `m` keeps `I` however it ends — with one rule per command;
* `Triple P m Q E` — from `P`, `m` answers in `Q` or fails in `E` — with the same rules.
-/

namespace SvenBridge
namespace Lib

universe u v w

/-- From a state: an answer or an error, and the state that is left. -/
def Command (ε : Type u) (σ : Type v) (α : Type w) :=
  σ → Except ε α × σ

namespace Command

variable {ε : Type u} {σ : Type v} {α β : Type w}

/-! ## Commands -/

protected def pure (a : α) : Command ε σ α :=
  fun s => (.ok a, s)

protected def bind (m : Command ε σ α) (f : α → Command ε σ β) : Command ε σ β :=
  fun s =>
    match m s with
    | (.ok a, t) => f a t
    | (.error e, t) => (.error e, t)

instance : Monad (Command ε σ) where
  pure := Command.pure
  bind := Command.bind

instance : MonadExcept ε (Command ε σ) where
  throw e := fun s => (.error e, s)
  tryCatch m handle := fun s =>
    match m s with
    | (.ok a, t) => (.ok a, t)
    | (.error e, t) => handle e t

instance : MonadStateOf σ (Command ε σ) where
  get := fun s => (.ok s, s)
  set t := fun _ => (.ok ⟨⟩, t)
  modifyGet f := fun s => (.ok (f s).1, (f s).2)

/-- Run `m` and hand on how it ended. -/
def attempt (m : Command ε σ α) : Command ε σ (Except ε α) :=
  fun s => (.ok (m s).1, (m s).2)

/-- The same command, with its error told in other words. -/
def mapError {ε' : Type u} (g : ε → ε') (m : Command ε σ α) : Command ε' σ α :=
  fun s => ((m s).1.mapError g, (m s).2)

@[simp] theorem pure_run (a : α) (s : σ) : (pure a : Command ε σ α) s = (.ok a, s) :=
  rfl

theorem bind_run (m : Command ε σ α) (f : α → Command ε σ β) (s : σ) :
    (m >>= f) s =
      match m s with
      | (.ok a, t) => f a t
      | (.error e, t) => (.error e, t) :=
  rfl

@[simp] theorem throw_run (e : ε) (s : σ) : (throw e : Command ε σ α) s = (.error e, s) :=
  rfl

@[simp] theorem get_run {σ : Type w} (s : σ) : (get : Command ε σ σ) s = (.ok s, s) :=
  rfl

@[simp] theorem modify_run (f : σ → σ) (s : σ) :
    (modify f : Command ε σ PUnit) s = (.ok ⟨⟩, f s) :=
  rfl

@[simp] theorem attempt_run (m : Command ε σ α) (s : σ) :
    attempt m s = (.ok (m s).1, (m s).2) :=
  rfl

theorem bind_ok {m : Command ε σ α} {f : α → Command ε σ β} {s t : σ} {a : α}
    (h : m s = (.ok a, t)) : (m >>= f) s = f a t := by
  rw [bind_run, h]

theorem bind_error {m : Command ε σ α} {f : α → Command ε σ β} {s t : σ} {e : ε}
    (h : m s = (.error e, t)) : (m >>= f) s = (.error e, t) := by
  rw [bind_run, h]

/-- A sequence that answers has a first part that answers. -/
theorem exists_of_bind_ok {m : Command ε σ α} {f : α → Command ε σ β} {s t : σ} {b : β}
    (h : (m >>= f) s = (.ok b, t)) : ∃ a u, m s = (.ok a, u) ∧ f a u = (.ok b, t) := by
  rcases hm : m s with ⟨e | a, u⟩
  · rw [bind_error hm] at h
    cases h
  · exact ⟨a, u, rfl, by rwa [bind_ok hm] at h⟩

/-- A sequence that fails does so in its first part or behind it. -/
theorem cases_of_bind_error {m : Command ε σ α} {f : α → Command ε σ β} {s t : σ} {e : ε}
    (h : (m >>= f) s = (.error e, t)) :
    m s = (.error e, t) ∨ ∃ a u, m s = (.ok a, u) ∧ f a u = (.error e, t) := by
  rcases hm : m s with ⟨e' | a, u⟩
  · rw [bind_error hm] at h
    cases h
    exact .inl rfl
  · exact .inr ⟨a, u, rfl, by rwa [bind_ok hm] at h⟩

theorem get_bind {σ : Type w} {α : Type w} (f : σ → Command ε σ α) (s : σ) :
    ((get : Command ε σ σ) >>= f) s = f s s :=
  rfl

/-- A command whose answer is known, and what it leaves. -/
theorem eq_of_ok {m : Command ε σ α} {s : σ} {a : α} (h : (m s).1 = .ok a) :
    m s = (.ok a, (m s).2) := by
  rw [← h]

/-! ## Invariants -/

/-- The command keeps `I`, whether it answers or fails. -/
def Keeps (I : σ → Prop) (m : Command ε σ α) : Prop :=
  ∀ s, I s → I (m s).2

variable {I : σ → Prop} {m : Command ε σ α} {f : α → Command ε σ β}

theorem Keeps.bind (hm : Keeps I m) (hf : ∀ a, Keeps I (f a)) : Keeps I (m >>= f) := by
  intro s hs
  have hrun := hm s hs
  rcases h : m s with ⟨a | e, t⟩ <;> rw [h] at hrun
  · rwa [bind_error h]
  · rw [bind_ok h]
    exact hf _ t hrun

theorem Keeps.get {σ : Type w} {I : σ → Prop} : Keeps I (MonadState.get : Command ε σ σ) :=
  fun _ hs => hs

theorem Keeps.pure (a : α) : Keeps I (Pure.pure a : Command ε σ α) :=
  fun _ hs => hs

theorem Keeps.throw (e : ε) : Keeps I (MonadExcept.throw e : Command ε σ α) :=
  fun _ hs => hs

theorem Keeps.modify {f : σ → σ} (hf : ∀ s, I s → I (f s)) :
    Keeps I (modify f : Command ε σ PUnit) :=
  fun s hs => hf s hs

theorem Keeps.attempt (hm : Keeps I m) : Keeps I (attempt m) :=
  fun s hs => hm s hs

/-! ## Triples -/

/-- From a state with `P` the command answers and leaves one with `Q`, or fails and leaves one
with `E`. -/
def Triple (P : σ → Prop) (m : Command ε σ α) (Q : α → σ → Prop) (E : ε → σ → Prop) : Prop :=
  ∀ s, P s →
    match m s with
    | (.ok a, t) => Q a t
    | (.error e, t) => E e t

namespace Triple

variable {P : σ → Prop} {Q : α → σ → Prop} {R : β → σ → Prop} {E : ε → σ → Prop}

theorem pure (a : α) (E : ε → σ → Prop) : Triple (Q a) (Pure.pure a) Q E :=
  fun _ hs => hs

theorem throw (e : ε) (Q : α → σ → Prop) : Triple (E e) (MonadExcept.throw e) Q E :=
  fun _ hs => hs

theorem bind (hm : Triple P m Q E) (hf : ∀ a, Triple (Q a) (f a) R E) :
    Triple P (m >>= f) R E := by
  intro s hs
  have hrun := hm s hs
  rcases h : m s with ⟨e | a, t⟩ <;> rw [h] at hrun
  · rw [bind_error h]
    exact hrun
  · rw [bind_ok h]
    exact hf a t hrun

/-- The outcome that is handed on tells which of the two states is left. -/
theorem attempt {E' : ε → σ → Prop} (hm : Triple P m Q E) :
    Triple P (attempt m) (fun outcome t => outcome.casesOn (E · t) (Q · t)) E' := by
  intro s hs
  have hrun := hm s hs
  rcases h : m s with ⟨e | a, t⟩ <;> rw [h] at hrun <;> rw [attempt_run, h] <;> exact hrun

theorem mapError {ε' : Type u} {g : ε → ε'} {E : ε' → σ → Prop}
    (hm : Triple P m Q fun e => E (g e)) : Triple P (mapError g m) Q E := by
  intro s hs
  have hrun := hm s hs
  rcases h : m s with ⟨e | a, t⟩ <;> rw [h] at hrun <;> rw [Command.mapError, h] <;> exact hrun

end Triple

end Command
end Lib
end SvenBridge
