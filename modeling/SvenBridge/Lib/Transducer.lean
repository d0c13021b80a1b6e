import Mathlib.Data.List.Basic
import Mathlib.Tactic.Common

/-!
# Transducer — letters in, messages out

A transducer reads one letter at a time and may emit a message after each.  This file contains

* `run` — the state after a word and the messages emitted on it, and `run_append`;
* `runs` — the same over a word that arrives in pieces, and `runs_eq`: how it is cut is not seen;
* `run_flatMap` — when every code word emits its message and comes back to a rest state, so does a
  stream of them.
-/

namespace SvenBridge
namespace Lib

universe u v w x

/-- A step reads a letter and may emit a message. -/
structure Transducer (σ : Type u) (α : Type v) (β : Type w) where
  step : σ → α → σ × Option β

namespace Transducer

variable {σ : Type u} {α : Type v} {β : Type w} (T : Transducer σ α β)

/-- The state after a word, and the messages emitted on the way. -/
def run : σ → List α → σ × List β
  | s, [] => (s, [])
  | s, a :: as => ((run (T.step s a).1 as).1, (T.step s a).2.toList ++ (run (T.step s a).1 as).2)

@[simp] theorem run_nil (s : σ) : T.run s [] = (s, []) :=
  rfl

theorem run_cons (s : σ) (a : α) (as : List α) :
    T.run s (a :: as) =
      ((T.run (T.step s a).1 as).1, (T.step s a).2.toList ++ (T.run (T.step s a).1 as).2) :=
  rfl

theorem run_append (s : σ) (as bs : List α) :
    T.run s (as ++ bs) =
      ((T.run (T.run s as).1 bs).1, (T.run s as).2 ++ (T.run (T.run s as).1 bs).2) := by
  induction as generalizing s with
  | nil =>
      rfl
  | cons a as ih =>
      rw [List.cons_append, run_cons, ih, run_cons, List.append_assoc]

/-- One run after the other. -/
theorem run_append_of_eq {s t u : σ} {as bs : List α} {ms ns : List β}
    (has : T.run s as = (t, ms)) (hbs : T.run t bs = (u, ns)) :
    T.run s (as ++ bs) = (u, ms ++ ns) := by
  rw [run_append, has, hbs]

/-! ## Words in pieces -/

/-- The pieces of a word, one after the other. -/
def runs : σ → List (List α) → σ × List β
  | s, [] => (s, [])
  | s, as :: rest => ((runs (T.run s as).1 rest).1, (T.run s as).2 ++ (runs (T.run s as).1 rest).2)

/-- Where a word is cut makes no difference. -/
theorem runs_eq (s : σ) (pieces : List (List α)) : T.runs s pieces = T.run s pieces.flatten := by
  induction pieces generalizing s with
  | nil =>
      rfl
  | cons as rest ih =>
      rw [runs, ih, List.flatten_cons, run_append]

/-! ## Streams of code words -/

/-- If a code word emits its message from every rest state and ends in one, a stream of code words
emits its messages. -/
theorem run_flatMap {γ : Type x} {Rest : σ → Prop} {encode : γ → List α} {message : γ → List β}
    {ms : List γ}
    (hword : ∀ s, Rest s → ∀ m ∈ ms, ∃ t, T.run s (encode m) = (t, message m) ∧ Rest t)
    {s : σ} (hs : Rest s) :
    ∃ t, T.run s (ms.flatMap encode) = (t, ms.flatMap message) ∧ Rest t := by
  induction ms generalizing s with
  | nil =>
      exact ⟨s, rfl, hs⟩
  | cons m ms ih =>
      obtain ⟨t, ht, hrest⟩ := hword s hs m (by simp)
      obtain ⟨u, hu, hend⟩ := ih (fun s hs m hm => hword s hs m (List.mem_cons_of_mem _ hm)) hrest
      refine ⟨u, ?_, hend⟩
      rw [List.flatMap_cons, List.flatMap_cons]
      exact T.run_append_of_eq ht hu

/-! ## Dropping messages -/

/-- The transducer with only the messages that meet `keep`. -/
def filter (keep : β → Bool) : Transducer σ α β where
  step s a := ((T.step s a).1, (T.step s a).2.filter keep)

theorem run_filter (keep : β → Bool) (s : σ) (as : List α) :
    (T.filter keep).run s as = ((T.run s as).1, (T.run s as).2.filter keep) := by
  induction as generalizing s with
  | nil =>
      rfl
  | cons a as ih =>
      rw [run_cons, run_cons, List.filter_append]
      simp only [filter] at ih ⊢
      rw [ih]
      cases (T.step s a).2 with
      | none =>
          rfl
      | some m =>
          cases hkeep : keep m <;> simp [Option.filter, hkeep]

end Transducer
end Lib
end SvenBridge
