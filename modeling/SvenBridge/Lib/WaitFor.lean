import Mathlib.Logic.Relation
import Mathlib.Order.Basic

/-!
# WaitFor — wait-for graphs

`waits t u` reads: task `t` cannot move before task `u` does.  A set of tasks is deadlocked when
the graph has a cycle.  A rank that falls along every edge excludes cycles, whatever the number
of tasks.
-/

namespace SvenBridge
namespace Lib

universe u v

variable {τ : Type u}

/-- Some task waits, directly or through other tasks, for itself. -/
def Deadlocked (waits : τ → τ → Prop) : Prop :=
  ∃ t, Relation.TransGen waits t t

theorem deadlocked_of_self {waits : τ → τ → Prop} {t : τ} (h : waits t t) :
    Deadlocked waits :=
  ⟨t, .single h⟩

theorem deadlocked_of_pair {waits : τ → τ → Prop} {t u : τ} (htu : waits t u)
    (hut : waits u t) : Deadlocked waits :=
  ⟨t, .tail (.single htu) hut⟩

theorem rank_lt_of_transGen {ι : Type v} [Preorder ι] {waits : τ → τ → Prop} {rank : τ → ι}
    (hrank : ∀ t u, waits t u → rank u < rank t) {t u : τ}
    (h : Relation.TransGen waits t u) : rank u < rank t := by
  induction h with
  | single hw =>
      exact hrank _ _ hw
  | tail _ hw ih =>
      exact lt_trans (hrank _ _ hw) ih

/-- A rank that falls along every edge leaves no cycle. -/
theorem not_deadlocked_of_rank {ι : Type v} [Preorder ι] {waits : τ → τ → Prop} (rank : τ → ι)
    (hrank : ∀ t u, waits t u → rank u < rank t) : ¬ Deadlocked waits := by
  rintro ⟨t, hcycle⟩
  exact lt_irrefl _ (rank_lt_of_transGen hrank hcycle : rank t < rank t)

end Lib
end SvenBridge
