import Mathlib.Data.List.Basic
import Mathlib.Data.Vector.Defs

/-!
# Reader — reading a format from the front of its input

A `Reader` takes what it needs from a list of symbols, or fails.  This file contains

* `readOne`, `readChunk`, `readUntil` and `readMany` — one symbol, a fixed number of them, a
  terminated run, and a counted repetition;
* `Reads p bytes x` — `p` reads `x` from `bytes` and no more, and from no shorter part of them;
* its rules, one for each way to build a reader.
-/

namespace SvenBridge
namespace Lib

universe u

/-- A reader with the input still to be read as its state. -/
abbrev Reader (β ε α : Type) :=
  StateT (List β) (Except ε) α

namespace Reader

variable {β ε α γ : Type}

def readOne (e : ε) : Reader β ε β
  | [] => .error e
  | b :: rest => .ok (b, rest)

/-- The symbols before the first that `stop` holds of, which is taken too. -/
def readUntil (stop : β → Bool) (e : ε) : Reader β ε (List β)
  | [] => .error e
  | b :: rest =>
      if stop b then
        .ok ([], rest)
      else
        match readUntil stop e rest with
        | .ok (run, rest) => .ok (b :: run, rest)
        | .error e => .error e

/-- The first `n` symbols. -/
def readChunk (n : ℕ) (e : ε) : Reader β ε (List.Vector β n) := fun input =>
  if h : n ≤ input.length then
    .ok (⟨input.take n, List.length_take_of_le h⟩, input.drop n)
  else
    .error e

/-- The same reader `count` times over. -/
def readMany (p : Reader β ε α) : ℕ → Reader β ε (List α)
  | 0 => pure []
  | count + 1 => do
      let x ← p
      let xs ← readMany p count
      return x :: xs

/-! ## Reading exactly -/

/-- From `bytes`, whatever follows them, `x` is read; from a proper part of them nothing is. -/
structure Reads (p : Reader β ε α) (bytes : List β) (x : α) : Prop where
  whole : ∀ rest, p (bytes ++ rest) = .ok (x, rest)
  cut : ∀ front rest, bytes = front ++ rest → rest ≠ [] → ∃ e, p front = .error e

namespace Reads

variable {p : Reader β ε α} {f : α → Reader β ε γ} {a b : List β} {x : α} {y : γ}

theorem pure (x : α) : Reads (Pure.pure x : Reader β ε α) [] x := by
  refine ⟨fun _ => rfl, ?_⟩
  intro front rest heq hne
  exact absurd (List.append_eq_nil_iff.1 heq.symm).2 hne

/-- One reader after the other. -/
theorem bind (hp : Reads p a x) (hf : Reads (f x) b y) : Reads (p >>= f) (a ++ b) y := by
  have hrun : ∀ input, (p >>= f) input = (p input).bind fun r => f r.1 r.2 := fun _ => rfl
  refine ⟨?_, ?_⟩
  · intro rest
    rw [hrun, List.append_assoc, hp.whole]
    exact hf.whole rest
  · intro front rest heq hne
    -- the cut is in the second part, or in the first
    rcases List.append_eq_append_iff.1 heq with ⟨c, hfront, hrest⟩ | ⟨c, ha, hrest⟩
    · -- the first part is all there
      obtain ⟨e, he⟩ := hf.cut c rest hrest hne
      refine ⟨e, ?_⟩
      rw [hrun, hfront, hp.whole]
      exact he
    · cases c with
      | nil =>
          -- exactly the first part is there, and nothing of the second
          have hfront : front = a := by simpa using ha.symm
          have hb : rest = b := by simpa using hrest
          obtain ⟨e, he⟩ := hf.cut [] b rfl (hb ▸ hne)
          refine ⟨e, ?_⟩
          rw [hrun, hfront, ← List.append_nil a, hp.whole]
          exact he
      | cons z c =>
          -- the first part itself is cut
          obtain ⟨e, he⟩ := hp.cut front (z :: c) ha (List.cons_ne_nil z c)
          refine ⟨e, ?_⟩
          rw [hrun, he]
          rfl

theorem map {g : α → γ} (hp : Reads p a x) : Reads (g <$> p) a (g x) := by
  have hbind : Reads (p >>= fun x => Pure.pure (g x)) (a ++ []) (g x) := hp.bind (.pure (g x))
  rwa [List.append_nil, ← map_eq_pure_bind] at hbind

theorem one (e : ε) (z : β) : Reads (readOne e) [z] z := by
  refine ⟨fun _ => rfl, ?_⟩
  intro front rest heq hne
  cases front with
  | nil => exact ⟨e, rfl⟩
  | cons w front =>
      obtain ⟨-, hnil⟩ := List.cons.inj heq
      exact absurd (List.append_eq_nil_iff.1 hnil.symm).2 hne

theorem chunk {n : ℕ} (e : ε) (v : List.Vector β n) : Reads (readChunk n e) v.toList v := by
  refine ⟨fun rest => ?_, fun front rest heq hne => ⟨e, ?_⟩⟩
  · have hlen : n ≤ (v.toList ++ rest).length := by
      rw [List.length_append, v.toList_length]
      omega
    have htake : (v.toList ++ rest).take n = v.toList := by
      rw [List.take_left' v.toList_length]
    rw [readChunk, dif_pos hlen, List.drop_left' v.toList_length]
    congr 2
    exact Subtype.ext htake
  · have hlen := congrArg List.length heq
    rw [v.toList_length, List.length_append] at hlen
    have hpos := List.length_pos_iff.2 hne
    rw [readChunk, dif_neg (by omega)]

/-- A run without a stop in it, and the stop. -/
theorem until_stop {stop : β → Bool} (e : ε) {run : List β} {z : β}
    (hrun : ∀ w ∈ run, stop w = false) (hz : stop z = true) :
    Reads (readUntil stop e) (run ++ [z]) run := by
  -- symbol by symbol; a cut may come before each of them or before the stop
  induction run with
  | nil =>
      refine ⟨?_, ?_⟩
      · intro rest
        simp [readUntil, hz]
      · intro front rest heq hne
        cases front with
        | nil => exact ⟨e, rfl⟩
        | cons w front =>
            obtain ⟨-, hnil⟩ := List.cons.inj heq
            exact absurd (List.append_eq_nil_iff.1 hnil.symm).2 hne
  | cons w run ih =>
      have hw : stop w = false := hrun w List.mem_cons_self
      have hrest := ih fun v hv => hrun v (List.mem_cons_of_mem w hv)
      refine ⟨?_, ?_⟩
      · intro rest
        have hwhole := hrest.whole rest
        simp only [List.cons_append, readUntil, hw, hwhole]
        rfl
      · intro front rest heq hne
        cases front with
        | nil => exact ⟨e, rfl⟩
        | cons v front =>
            rw [List.cons_append, List.cons_append] at heq
            obtain ⟨rfl, htail⟩ := List.cons.inj heq
            obtain ⟨e', he'⟩ := hrest.cut front rest htail hne
            refine ⟨e', ?_⟩
            simp only [readUntil, hw, he']
            rfl

theorem many {κ : Type} {encode : κ → List β} {value : κ → α}
    (hp : ∀ k, Reads p (encode k) (value k)) (ks : List κ) :
    Reads (readMany p ks.length) (ks.flatMap encode) (ks.map value) := by
  induction ks with
  | nil => exact .pure []
  | cons k ks ih =>
      have htail : Reads (readMany p ks.length >>= fun xs => Pure.pure (value k :: xs))
          (ks.flatMap encode ++ []) (value k :: ks.map value) := ih.bind (.pure _)
      rw [List.append_nil] at htail
      exact (hp k).bind htail

theorem cut_short {front : List β} (h : Reads p a x) (hfront : front <+: a) (hne : front ≠ a) :
    ∃ e, p front = .error e := by
  obtain ⟨rest, rfl⟩ := hfront
  refine h.cut front rest rfl ?_
  rintro rfl
  exact hne (List.append_nil front).symm

end Reads

/-! ## What has been read -/

/-- Whatever `p` reads, it has read from a front of its input that `R` relates to it. -/
def Takes (p : Reader β ε α) (R : List β → α → Prop) : Prop :=
  ∀ input x rest, p input = .ok (x, rest) → ∃ front, input = front ++ rest ∧ R front x

namespace Takes

variable {p : Reader β ε α} {f : α → Reader β ε γ} {R : List β → α → Prop}
  {Q : α → List β → γ → Prop}

theorem pure (x : α) : Takes (Pure.pure x : Reader β ε α) fun front y => front = [] ∧ y = x := by
  rintro input y rest ⟨⟩
  exact ⟨[], rfl, rfl, rfl⟩

/-- One reader after the other. -/
theorem bind (hp : Takes p R) (hf : ∀ x, Takes (f x) (Q x)) :
    Takes (p >>= f) fun front y => ∃ a b x, front = a ++ b ∧ R a x ∧ Q x b y := by
  intro input y rest h
  have hrun : (p >>= f) input = (p input).bind fun r => f r.1 r.2 := rfl
  rw [hrun] at h
  cases hread : p input with
  | error e =>
      rw [hread] at h
      cases h
  | ok r =>
      rw [hread] at h
      obtain ⟨a, hinput, ha⟩ := hp input r.1 r.2 hread
      obtain ⟨b, hrest, hb⟩ := hf r.1 r.2 y rest h
      refine ⟨a ++ b, ?_, a, b, r.1, rfl, ha, hb⟩
      rw [hinput, hrest, List.append_assoc]

theorem map {g : α → γ} (hp : Takes p R) :
    Takes (g <$> p) fun front y => ∃ x, R front x ∧ y = g x := by
  rw [map_eq_pure_bind]
  intro input y rest h
  obtain ⟨front, hinput, a, b, x, hfront, ha, hb, hy⟩ :=
    hp.bind (fun x => Takes.pure (g x)) input y rest h
  exact ⟨front, hinput, x, by rwa [hfront, hb, List.append_nil], hy⟩

/-- What is taken is related in every weaker way too. -/
theorem mono {R' : List β → α → Prop} (hp : Takes p R) (hle : ∀ front x, R front x → R' front x) :
    Takes p R' := by
  intro input x rest h
  obtain ⟨front, hinput, hx⟩ := hp input x rest h
  exact ⟨front, hinput, hle front x hx⟩

theorem one (e : ε) : Takes (readOne e : Reader β ε β) fun front z => front = [z] := by
  intro input z rest h
  cases input with
  | nil => cases h
  | cons w input =>
      cases h
      exact ⟨[z], rfl, rfl⟩

theorem chunk (n : ℕ) (e : ε) :
    Takes (readChunk n e : Reader β ε (List.Vector β n)) fun front v => front = v.toList := by
  intro input v rest h
  rw [readChunk] at h
  split at h
  · cases h
    exact ⟨_, (List.take_append_drop n input).symm, rfl⟩
  · cases h

theorem until_stop (stop : β → Bool) (e : ε) :
    Takes (readUntil stop e) fun front run =>
      ∃ z, front = run ++ [z] ∧ stop z = true ∧ ∀ w ∈ run, stop w = false := by
  intro input
  -- on the input: the run grows by one symbol each time the stop does not come
  induction input with
  | nil =>
      intro run rest h
      cases h
  | cons w input ih =>
      intro run rest h
      rw [readUntil] at h
      split at h
      · rename_i hw
        cases h
        exact ⟨[w], rfl, w, rfl, hw, nofun⟩
      · rename_i hw
        split at h
        · rename_i more _ hmore
          cases h
          obtain ⟨front, hinput, z, hfront, hz, hall⟩ := ih more _ hmore
          refine ⟨w :: front, ?_, z, ?_, hz, ?_⟩
          · rw [hinput, List.cons_append]
          · rw [hfront, List.cons_append]
          · intro v hv
            rcases List.mem_cons.1 hv with rfl | hv
            · simpa using hw
            · exact hall v hv
        · cases h

end Takes

/-! ## Counted repetitions -/

variable {p : Reader β ε α}

/-- An error in the first of them, or in what follows it. -/
theorem readMany_error {count : ℕ} {input : List β} {e : ε}
    (h : p input = .error e ∨ ∃ x tail, p input = .ok (x, tail) ∧
      readMany p count tail = .error e) :
    readMany p (count + 1) input = .error e := by
  have hrun : readMany p (count + 1) input = (p input).bind fun r =>
      (readMany p count r.2).bind fun more => .ok (r.1 :: more.1, more.2) := rfl
  rw [hrun]
  rcases h with hp | ⟨x, tail, hp, hmore⟩
  · rw [hp]
    rfl
  · rw [hp]
    show (readMany p count tail).bind _ = _
    rw [hmore]
    rfl

/-- When fewer are there than are counted, nothing is read. -/
theorem readMany_short {κ : Type} {encode : κ → List β} {value : κ → α}
    (hp : ∀ k, Reads p (encode k) (value k)) {tail : List β} {e : ε} (htail : p tail = .error e)
    {ks : List κ} {count : ℕ} (hlt : ks.length < count) :
    readMany p count (ks.flatMap encode ++ tail) = .error e := by
  -- one record less, one count less; where the records end the reader is still asked for one
  induction ks generalizing count with
  | nil =>
      cases count with
      | zero => cases hlt
      | succ count => exact readMany_error (.inl htail)
  | cons k ks ih =>
      cases count with
      | zero => cases hlt
      | succ count =>
          have hrest := ih (Nat.lt_of_succ_lt_succ hlt)
          rw [List.flatMap_cons, List.append_assoc]
          exact readMany_error (.inr ⟨_, _, (hp k).whole _, hrest⟩)

end Reader
end Lib
end SvenBridge
