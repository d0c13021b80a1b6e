import Mathlib.Data.List.Induction
import Mathlib.Data.List.Nodup

/-!
# Keyed — lists with one entry for each key

An entry put into the list replaces the first one of its key where that stands, or goes to the end.
`gather` puts in the entries of a list one after the other: each key keeps the place of its first
entry and the content of its last.

* `upsert` and `gather`, and what they do to keys and content;
* `map_key_gather` — the keys, in the order in which they first come;
* `isLast_of_mem_gather` — the content, that of the last entries.
-/

namespace SvenBridge
namespace Lib
namespace Keyed

universe u v

variable {α : Type u} {κ : Type v}

/-- Replace the first entry that meets `p`, if there is one. -/
def replaceFirst (p : α → Bool) (x : α) : List α → Option (List α)
  | [] => none
  | y :: ys => if p y then some (x :: ys) else (replaceFirst p x ys).map (y :: ·)

/-! ## Last entries -/

/-- `y` is the last entry of its key. -/
def IsLast (key : α → κ) (xs : List α) (y : α) : Prop :=
  ∃ front back, xs = front ++ y :: back ∧ ∀ z ∈ back, key z ≠ key y

theorem isLast_concat_self (key : α → κ) (xs : List α) (x : α) : IsLast key (xs ++ [x]) x :=
  ⟨xs, [], rfl, fun _ hz => absurd hz List.not_mem_nil⟩

theorem IsLast.concat {key : α → κ} {xs : List α} {x y : α} (h : IsLast key xs y)
    (hne : key x ≠ key y) : IsLast key (xs ++ [x]) y := by
  obtain ⟨front, back, rfl, hback⟩ := h
  refine ⟨front, back ++ [x], by simp, fun z hz => ?_⟩
  rcases List.mem_append.1 hz with hz | hz
  · exact hback z hz
  · rwa [List.mem_singleton.1 hz]

/-! ## Putting entries in -/

variable [DecidableEq κ] (key : α → κ)

/-- Put an entry in its key's place, or at the end. -/
def upsert (x : α) : List α → List α
  | [] => [x]
  | y :: ys => if key y = key x then x :: ys else y :: upsert x ys

/-- Put in all entries of a list, in order. -/
def gather (kept xs : List α) : List α :=
  xs.foldl (fun kept x => upsert key x kept) kept

variable {key}

theorem replaceFirst_getD {p : α → Bool} {x : α} (hp : ∀ y, p y = true ↔ key y = key x)
    (l : List α) : (replaceFirst p x l).getD (l ++ [x]) = upsert key x l := by
  -- the loop stops at the first entry of the key, and so does the replacement
  induction l with
  | nil =>
      rfl
  | cons y ys ih =>
      by_cases hy : key y = key x
      · simp [replaceFirst, upsert, hy, hp]
      · have hfalse : p y = false := by
          rw [Bool.eq_false_iff]
          exact fun htrue => hy ((hp y).1 htrue)
        rw [upsert, if_neg hy, ← ih]
        simp only [replaceFirst, hfalse]
        cases replaceFirst p x ys <;> rfl

/-! ## Keys -/

theorem map_key_upsert (key : α → κ) (x : α) (l : List α) :
    (upsert key x l).map key =
      if key x ∈ l.map key then l.map key else l.map key ++ [key x] := by
  -- the key is found at the head, or looked for in the tail
  induction l with
  | nil =>
      simp [upsert]
  | cons y ys ih =>
      by_cases hy : key y = key x
      · simp [upsert, hy]
      · have hne : ¬ key x = key y := fun h => hy h.symm
        rw [upsert, if_neg hy, List.map_cons, ih]
        by_cases hmem : key x ∈ ys.map key
        · rw [if_pos hmem, if_pos (by simp [hmem])]
          rfl
        · rw [if_neg hmem, if_neg (by simp [hmem, hne])]
          rfl

/-- An entry of another key stays. -/
theorem mem_upsert_of_ne {x y : α} {l : List α} (h : y ∈ l) (hne : key y ≠ key x) :
    y ∈ upsert key x l := by
  induction l with
  | nil =>
      exact absurd h List.not_mem_nil
  | cons z zs ih =>
      rcases List.mem_cons.1 h with rfl | hmem
      · rw [upsert, if_neg hne]
        exact List.mem_cons_self
      · rw [upsert]
        split
        · exact List.mem_cons_of_mem _ hmem
        · exact List.mem_cons_of_mem _ (ih hmem)

theorem nodup_upsert {x : α} {l : List α} (h : (l.map key).Nodup) :
    ((upsert key x l).map key).Nodup := by
  rw [map_key_upsert]
  by_cases hmem : key x ∈ l.map key
  · rwa [if_pos hmem]
  · rw [if_neg hmem]
    exact List.Nodup.append h (List.nodup_singleton _) (by simpa using hmem)

theorem nodup_gather {kept : List α} (h : (kept.map key).Nodup) (xs : List α) :
    ((gather key kept xs).map key).Nodup := by
  -- the entries kept so far are the accumulator; each step keeps their keys different
  induction xs generalizing kept with
  | nil =>
      exact h
  | cons x xs ih =>
      exact ih (nodup_upsert h)

theorem gather_concat (kept xs : List α) (x : α) :
    gather key kept (xs ++ [x]) = upsert key x (gather key kept xs) := by
  rw [gather, List.foldl_append]
  rfl

/-- The keys stand in the order in which they first come. -/
theorem map_key_gather [BEq κ] [LawfulBEq κ] (key : α → κ) (xs : List α) :
    (gather key [] xs).map key = (xs.map key).eraseDups := by
  -- from the end: the last key is there already, or comes to the end
  induction xs using List.reverseRecOn with
  | nil =>
      rfl
  | append_singleton xs x ih =>
      rw [gather_concat, map_key_upsert, ih, List.map_append, List.eraseDups_append]
      simp only [List.mem_eraseDups]
      by_cases hmem : key x ∈ xs.map key
      · have hold : ([key x] : List κ).removeAll (xs.map key) = [] := by
          simpa [List.removeAll] using hmem
        rw [if_pos hmem, List.map_singleton, hold]
        simp
      · have hnew : ([key x] : List κ).removeAll (xs.map key) = [key x] := by
          simpa [List.removeAll] using hmem
        rw [if_neg hmem, List.map_singleton, hnew]
        rfl

/-! ## Content -/

theorem upsert_eq_append {x : α} {l : List α} (h : key x ∉ l.map key) :
    upsert key x l = l ++ [x] := by
  induction l with
  | nil =>
      rfl
  | cons y ys ih =>
      have hy : ¬ key y = key x := fun heq => h (by simp [heq])
      have hys : key x ∉ ys.map key := fun hmem => h (by simp [hmem])
      rw [upsert, if_neg hy, ih hys]
      rfl

/-- Among different keys, putting an entry in changes the entry of its key only. -/
theorem upsert_eq_map {x : α} {l : List α} (hnodup : (l.map key).Nodup)
    (h : key x ∈ l.map key) :
    upsert key x l = l.map fun y => if key y = key x then x else y := by
  induction l with
  | nil =>
      cases h
  | cons y ys ih =>
      rw [List.map_cons, List.nodup_cons] at hnodup
      by_cases hy : key y = key x
      -- behind the entry that is replaced there is no other one of its key
      · have hrest : ys.map (fun y => if key y = key x then x else y) = ys := by
          conv_rhs => rw [← List.map_id ys]
          refine List.map_congr_left fun z hz => if_neg fun heq => hnodup.1 ?_
          rw [hy, ← heq]
          exact List.mem_map_of_mem hz
        rw [upsert, if_pos hy, List.map_cons, if_pos hy, hrest]
      · have hys : key x ∈ ys.map key := by
          rcases List.mem_cons.1 h with heq | hmem
          · exact absurd heq.symm hy
          · exact hmem
        rw [upsert, if_neg hy, List.map_cons, if_neg hy, ih hnodup.2 hys]

theorem mem_upsert {x y : α} {l : List α} (h : y ∈ upsert key x l) : y = x ∨ y ∈ l := by
  induction l with
  | nil =>
      exact .inl (List.mem_singleton.1 h)
  | cons z zs ih =>
      by_cases hz : key z = key x
      · rw [upsert, if_pos hz] at h
        rcases List.mem_cons.1 h with rfl | hmem
        · exact .inl rfl
        · exact .inr (List.mem_cons_of_mem _ hmem)
      · rw [upsert, if_neg hz] at h
        rcases List.mem_cons.1 h with rfl | hmem
        · exact .inr List.mem_cons_self
        · exact (ih hmem).imp_right (List.mem_cons_of_mem _)

theorem mem_gather {y : α} {kept xs : List α} (h : y ∈ gather key kept xs) :
    y ∈ kept ∨ y ∈ xs := by
  -- an entry that stays was kept before, or it has just been put in
  induction xs generalizing kept with
  | nil =>
      exact .inl h
  | cons x xs ih =>
      rcases ih h with hkept | hxs
      · rcases mem_upsert hkept with rfl | hmem
        · exact .inr List.mem_cons_self
        · exact .inl hmem
      · exact .inr (List.mem_cons_of_mem _ hxs)

theorem mem_upsert_self (key : α → κ) (x : α) (l : List α) : x ∈ upsert key x l := by
  induction l with
  | nil =>
      exact List.mem_singleton_self x
  | cons y ys ih =>
      by_cases hy : key y = key x
      · rw [upsert, if_pos hy]
        exact List.mem_cons_self
      · rw [upsert, if_neg hy]
        exact List.mem_cons_of_mem _ ih

/-- What is gathered are the last entries. -/
theorem isLast_of_mem_gather {y : α} {xs : List α} (h : y ∈ gather key [] xs) :
    IsLast key xs y := by
  induction xs using List.reverseRecOn with
  | nil =>
      cases h
  | append_singleton xs x ih =>
      have hnodup : ((gather key [] (xs ++ [x])).map key).Nodup :=
        nodup_gather (by simp) _
      by_cases hy : y = x
      · rw [hy]
        exact isLast_concat_self key xs x
      · have hx : x ∈ gather key [] (xs ++ [x]) := by
          rw [gather_concat]
          exact mem_upsert_self key x _
        -- the last entry is the only one of its key
        have hne : key x ≠ key y := fun heq =>
          hy (List.inj_on_of_nodup_map hnodup h hx heq.symm)
        rw [gather_concat] at h
        exact (ih ((mem_upsert h).resolve_left hy)).concat hne

theorem gather_eq_append {kept xs : List α} (h : ((kept ++ xs).map key).Nodup) :
    gather key kept xs = kept ++ xs := by
  -- each key is new, so that its entry goes to the end of those kept
  induction xs generalizing kept with
  | nil =>
      simp [gather]
  | cons x xs ih =>
      have hx : key x ∉ kept.map key := by
        rw [List.map_append, List.map_cons] at h
        intro hmem
        exact List.disjoint_of_nodup_append h hmem List.mem_cons_self
      have happend : kept ++ [x] ++ xs = kept ++ x :: xs := List.append_cons kept x xs |>.symm
      have hrest : gather key (kept ++ [x]) xs = kept ++ [x] ++ xs := ih (by rwa [happend])
      rw [happend] at hrest
      rw [← hrest]
      show gather key (upsert key x kept) xs = _
      rw [upsert_eq_append hx]

theorem length_upsert_le (key : α → κ) (x : α) (l : List α) : (upsert key x l).length ≤ l.length + 1 := by
  have hkeys := congrArg List.length (map_key_upsert key x l)
  rw [List.length_map] at hkeys
  rw [hkeys]
  split <;> simp

theorem length_gather_le (key : α → κ) (kept xs : List α) :
    (gather key kept xs).length ≤ kept.length + xs.length := by
  induction xs generalizing kept with
  | nil =>
      exact Nat.le_refl _
  | cons x xs ih =>
      have hx := length_upsert_le key x kept
      have hrest := ih (upsert key x kept)
      rw [List.length_cons]
      show (gather key (upsert key x kept) xs).length ≤ _
      omega

/-- Nothing is merged exactly when the keys are different. -/
theorem gather_length_eq {kept xs : List α} (hkept : (kept.map key).Nodup)
    (h : (gather key kept xs).length = kept.length + xs.length) :
    gather key kept xs = kept ++ xs := by
  induction xs generalizing kept with
  | nil =>
      simp [gather]
  | cons x xs ih =>
      have hle := length_gather_le key (upsert key x kept) xs
      change (gather key (upsert key x kept) xs).length = _ at h
      rw [List.length_cons] at h
      -- were the key known, one entry less would be kept than can be made up for
      have hmem : key x ∉ kept.map key := by
        intro hmem
        have hkeys := congrArg List.length (map_key_upsert key x kept)
        rw [if_pos hmem, List.length_map, List.length_map] at hkeys
        omega
      have hupsert := upsert_eq_append hmem
      have hlen : (upsert key x kept).length = kept.length + 1 := by simp [hupsert]
      have hrest := ih (nodup_upsert (x := x) hkept) (by omega)
      show gather key (upsert key x kept) xs = _
      rw [hrest, hupsert]
      simp

end Keyed
end Lib
end SvenBridge
