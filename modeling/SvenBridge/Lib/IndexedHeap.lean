import Mathlib.Data.Set.Function
import Mathlib.Logic.Equiv.Basic
import Mathlib.Order.Defs.LinearOrder

/-!
# IndexedHeap — a binary heap of rows that knows where each row is

Rows are numbers, the key of a row is given from outside, and it may change while the row is in the
heap.  This file contains

* the order of a heap as a property of the keys by place, `OrderedFrom`, and `Loose`, the order with
  one place left out, with what an exchange of a place and its parent does to it;
* `IndexedHeap` and its loops `siftUp`, `siftDown`, `repair`, `heapify`, `push` and `remove`, where a
  result `none` is an index out of range or a loop that does not end;
* `Tracks`, and that each of the operations succeeds, keeps it, and leaves a heap.
-/

namespace SvenBridge
namespace Lib

universe u

namespace IndexedHeap

def parent (i : ℕ) : ℕ := (i - 1) / 2

/-! ## Order -/

section Order

variable {κ : Type u} [LinearOrder κ] {low n p : ℕ} {key : ℕ → κ}

/-- No place is earlier than its parent, for the parents from `low` on. -/
def OrderedFrom (low n : ℕ) (key : ℕ → κ) : Prop :=
  ∀ i, 0 < i → i < n → low ≤ parent i → key (parent i) ≤ key i

/-- The order without the place `p`: what is below `p` is not earlier than what is above it. -/
structure Loose (low n p : ℕ) (key : ℕ → κ) : Prop where
  off : ∀ i, 0 < i → i < n → low ≤ parent i → i ≠ p → parent i ≠ p → key (parent i) ≤ key i
  across : 0 < p → low ≤ parent p → ∀ c, 0 < c → c < n → parent c = p → key (parent p) ≤ key c

/-- The place `p` is not earlier than its parent. -/
def Above (low p : ℕ) (key : ℕ → κ) : Prop :=
  0 < p → low ≤ parent p → key (parent p) ≤ key p

/-- No child of `p` is earlier than it. -/
def Below (n p : ℕ) (key : ℕ → κ) : Prop :=
  ∀ c, 0 < c → c < n → parent c = p → key p ≤ key c

theorem parent_lt {i : ℕ} (h : 0 < i) : parent i < i := by
  rw [parent]
  omega

theorem Loose.ordered (h : Loose low n p key) (habove : Above low p key) (hbelow : Below n p key) :
    OrderedFrom low n key := by
  intro i hi hin hlow
  by_cases hip : i = p
  · subst hip
    exact habove hi hlow
  by_cases hpar : parent i = p
  · rw [hpar]
    exact hbelow i hi hin hpar
  · exact h.off i hi hin hlow hip hpar

/-- A heap stays one but for the place whose key changes. -/
theorem OrderedFrom.loose {key' : ℕ → κ} (h : OrderedFrom 0 n key)
    (heq : ∀ i, i < n → i ≠ p → key' i = key i) : Loose 0 n p key' := by
  constructor
  · intro i hi hin _ hip hpar
    have hpi := parent_lt hi
    rw [heq i hin hip, heq (parent i) (Nat.lt_trans hpi hin) hpar]
    exact h i hi hin (Nat.zero_le _)
  · intro hp _ c hc hcn hpar
    have hpc : p < c := hpar ▸ parent_lt hc
    have hpp := parent_lt hp
    rw [heq c hcn (Nat.ne_of_gt hpc), heq (parent p) (by omega) (Nat.ne_of_lt hpp)]
    have hup := h p hp (by omega) (Nat.zero_le _)
    have hdown := h c hc hcn (Nat.zero_le _)
    rw [hpar] at hdown
    exact le_trans hup hdown

theorem OrderedFrom.root (h : OrderedFrom 0 n key) : ∀ i, i < n → key 0 ≤ key i := by
  intro i
  induction i using Nat.strongRecOn with
  | ind i ih =>
      intro hin
      rcases Nat.eq_zero_or_pos i with rfl | hi
      · exact le_refl _
      · have hpar := parent_lt hi
        exact le_trans (ih _ hpar (Nat.lt_trans hpar hin)) (h i hi hin (Nat.zero_le _))

/-- A place earlier than its parent changes places with it. -/
theorem Loose.rise (h : Loose 0 n p key) (hp : 0 < p) (hpn : p < n)
    (hlt : key p < key (parent p)) :
    Loose 0 n (parent p) (key ∘ Equiv.swap (parent p) p) ∧
      Below n (parent p) (key ∘ Equiv.swap (parent p) p) := by
  have hq := parent_lt hp
  have hother : ∀ i, i ≠ parent p → i ≠ p → (key ∘ Equiv.swap (parent p) p) i = key i := by
    intro i hiq hip
    rw [Function.comp_apply, Equiv.swap_apply_of_ne_of_ne hiq hip]
  have hat : (key ∘ Equiv.swap (parent p) p) p = key (parent p) := by
    rw [Function.comp_apply, Equiv.swap_apply_right]
  have hup : (key ∘ Equiv.swap (parent p) p) (parent p) = key p := by
    rw [Function.comp_apply, Equiv.swap_apply_left]
  -- a child of the parent other than `p`
  have hsibling : ∀ c, 0 < c → c < n → parent c = parent p → c ≠ p → key (parent p) ≤ key c := by
    intro c hc hcn hpar hcp
    have hoff := h.off c hc hcn (Nat.zero_le _) hcp (by omega)
    rwa [hpar] at hoff
  refine ⟨⟨?_, ?_⟩, ?_⟩
  · intro i hi hin _ hiq hpar
    have hip : i ≠ p := fun heq => hpar (by rw [heq])
    rw [hother i hiq hip]
    by_cases hpi : parent i = p
    · rw [hpi, hat]
      exact h.across hp (Nat.zero_le _) i hi hin hpi
    · rw [hother _ hpar hpi]
      exact h.off i hi hin (Nat.zero_le _) hip hpi
  · intro hq0 _ c hc hcn hpar
    have hqq := parent_lt hq0
    have htop := h.off (parent p) hq0 (by omega) (Nat.zero_le _) (by omega) (by omega)
    rw [hother (parent (parent p)) (by omega) (by omega)]
    by_cases hcp : c = p
    · rw [hcp, hat]
      exact htop
    · have hcq : c ≠ parent p := by
        have := parent_lt hc
        omega
      rw [hother c hcq hcp]
      exact le_trans htop (hsibling c hc hcn hpar hcp)
  · intro c hc hcn hpar
    rw [hup]
    by_cases hcp : c = p
    · rw [hcp, hat]
      exact le_of_lt hlt
    · have hcq : c ≠ parent p := by
        have := parent_lt hc
        omega
      rw [hother c hcq hcp]
      exact le_of_lt (lt_of_lt_of_le hlt (hsibling c hc hcn hpar hcp))

/-- A place later than its earliest child changes places with it. -/
theorem Loose.sink {c : ℕ} (h : Loose low n p key) (hlow : low ≤ p) (hc : 0 < c) (hpar : parent c = p)
    (hleast : ∀ d, 0 < d → d < n → parent d = p → key c ≤ key d) (hcn : c < n)
    (hlt : key c < key p) :
    Loose low n c (key ∘ Equiv.swap p c) ∧ Above low c (key ∘ Equiv.swap p c) := by
  have hpc : p < c := hpar ▸ parent_lt hc
  have hother : ∀ i, i ≠ p → i ≠ c → (key ∘ Equiv.swap p c) i = key i := by
    intro i hip hic
    rw [Function.comp_apply, Equiv.swap_apply_of_ne_of_ne hip hic]
  have hat : (key ∘ Equiv.swap p c) p = key c := by
    rw [Function.comp_apply, Equiv.swap_apply_left]
  have hdown : (key ∘ Equiv.swap p c) c = key p := by
    rw [Function.comp_apply, Equiv.swap_apply_right]
  refine ⟨⟨?_, ?_⟩, ?_⟩
  · intro i hi hin hlowi hic hpari
    by_cases hip : i = p
    · subst hip
      have hpi := parent_lt hi
      rw [hat, hother (parent i) (by omega) hpari]
      exact h.across hi hlowi c hc hcn hpar
    · rw [hother i hip hic]
      by_cases hpi : parent i = p
      · rw [hpi, hat]
        exact hleast i hi hin hpi
      · rw [hother _ hpi hpari]
        exact h.off i hi hin hlowi hip hpi
  · intro _ _ d hd hdn hpard
    have hcd : c < d := hpard ▸ parent_lt hd
    rw [hpar, hat, hother d (by omega) (by omega)]
    have hoff := h.off d hd hdn (by omega) (by omega) (by omega)
    rwa [hpard] at hoff
  · intro _ _
    rw [hpar, hat, hdown]
    exact le_of_lt hlt

end Order

end IndexedHeap

/-! ## The heap and its loops -/

/-- `heap` holds rows by place, `positions` the place of each row. -/
structure IndexedHeap where
  heap : List ℕ
  positions : List (Option ℕ)
  deriving DecidableEq

namespace IndexedHeap

/-- A write that is out of range fails. -/
def put {α : Type u} (xs : List α) (i : ℕ) (x : α) : Option (List α) :=
  if i < xs.length then some (xs.set i x) else none

def swap (index : IndexedHeap) (a b : ℕ) : Option IndexedHeap := do
  let rowA ← index.heap[a]?
  let rowB ← index.heap[b]?
  let positions ← put index.positions rowB (some a)
  let positions ← put positions rowA (some b)
  return ⟨(index.heap.set a rowB).set b rowA, positions⟩

section Loops

variable {κ : Type u} [LinearOrder κ] (key : ℕ → κ)

def siftUp : ℕ → IndexedHeap → ℕ → Option IndexedHeap
  | 0, _, _ => none
  | fuel + 1, index, position =>
      if position = 0 then
        some index
      else do
        let above ← index.heap[parent position]?
        let row ← index.heap[position]?
        if key above ≤ key row then
          return index
        else do
          let index ← index.swap (parent position) position
          siftUp fuel index (parent position)

/-- The earlier of two children; there may be a left one only. -/
def earlierChild (heap : List ℕ) (left leftRow : ℕ) : ℕ :=
  match heap[left + 1]? with
  | some rightRow => if key rightRow < key leftRow then left + 1 else left
  | none => left

def siftDown : ℕ → IndexedHeap → ℕ → Option IndexedHeap
  | 0, _, _ => none
  | fuel + 1, index, position =>
      if index.heap.length ≤ position * 2 + 1 then
        some index
      else do
        let leftRow ← index.heap[position * 2 + 1]?
        let child := earlierChild key index.heap (position * 2 + 1) leftRow
        let row ← index.heap[position]?
        let childRow ← index.heap[child]?
        if key row ≤ key childRow then
          return index
        else do
          let index ← index.swap position child
          siftDown fuel index child

def repair (index : IndexedHeap) (position : ℕ) : Option IndexedHeap := do
  if position > 0 then
    let row ← index.heap[position]?
    let above ← index.heap[parent position]?
    if key row < key above then
      siftUp key (position + 1) index position
    else
      siftDown key (index.heap.length + 1) index position
  else
    siftDown key (index.heap.length + 1) index position

/-- The places below `count` are sifted down, the last one first. -/
def heapify : ℕ → IndexedHeap → Option IndexedHeap
  | 0, index => some index
  | count + 1, index => do
      let index ← siftDown key (index.heap.length + 1) index count
      heapify count index

def push (index : IndexedHeap) (row : ℕ) : Option IndexedHeap := do
  let positions ← put index.positions row (some index.heap.length)
  siftUp key (index.heap.length + 1) ⟨index.heap ++ [row], positions⟩ index.heap.length

/-- A row at the last place is dropped; otherwise the last one takes its place. -/
def remove (index : IndexedHeap) (row : ℕ) : Option IndexedHeap := do
  match ← index.positions[row]? with
  | none => return index
  | some position =>
      match index.heap.length with
      | 0 => none
      | last + 1 =>
          let positions := index.positions.set row none
          if position = last then
            return ⟨index.heap.dropLast, positions⟩
          else do
            let moved ← index.heap[last]?
            let heap ← put index.heap position moved
            let positions ← put positions moved (some position)
            repair key ⟨heap.dropLast, positions⟩ position

end Loops

/-- The row at a place has another number. -/
def rewriteRow (heap : List ℕ) (position : Option ℕ) (row : ℕ) : Option (List ℕ) :=
  match position with
  | some position => put heap position row
  | none => some heap

/-- The highest row number goes; the row that had it has the number `removed` from now on. -/
def renameLast (index : IndexedHeap) (removed last : ℕ) : Option IndexedHeap := do
  if removed = last then
    return ⟨index.heap, index.positions.dropLast⟩
  else
    let position ← index.positions[last]?
    let positions ← put index.positions removed position
    let heap ← rewriteRow index.heap position removed
    return ⟨heap, positions.dropLast⟩

/-- The rows that `present` holds of are put down one after the other, in no order. -/
def fill (present : ℕ → Bool) : ℕ → ℕ → IndexedHeap → IndexedHeap
  | 0, _, index => index
  | count + 1, row, index =>
      fill present count (row + 1)
        (if present row then
          ⟨index.heap ++ [row], index.positions.set row (some index.heap.length)⟩
        else
          index)

/-! ## Where the rows are -/

/-- The positions say where each row of the heap is, and nothing else. -/
def Tracks (index : IndexedHeap) : Prop :=
  ∀ row p : ℕ, index.positions[row]? = some (some p) ↔ index.heap[p]? = some row

def Holds (index : IndexedHeap) (row : ℕ) : Prop :=
  ∃ p : ℕ, index.heap[p]? = some row

/-- The same rows at other places. -/
structure Sifted (index index' : IndexedHeap) : Prop where
  tracks : Tracks index'
  length : index'.heap.length = index.heap.length
  rows : index'.positions.length = index.positions.length
  holds : ∀ row, Holds index' row ↔ Holds index row

theorem Sifted.refl {index : IndexedHeap} (h : Tracks index) : Sifted index index :=
  ⟨h, rfl, rfl, fun _ => Iff.rfl⟩

theorem Sifted.trans {index index' index'' : IndexedHeap} (h : Sifted index index')
    (h' : Sifted index' index'') : Sifted index index'' :=
  ⟨h'.tracks, h'.length.trans h.length, h'.rows.trans h.rows,
    fun row => (h'.holds row).trans (h.holds row)⟩

theorem Tracks.inj {index : IndexedHeap} (h : Tracks index) {p q row : ℕ}
    (hp : index.heap[p]? = some row) (hq : index.heap[q]? = some row) : p = q := by
  have hp' := (h row p).2 hp
  rw [(h row q).2 hq, Option.some.injEq, Option.some.injEq] at hp'
  exact hp'.symm

theorem Tracks.lt {index : IndexedHeap} (h : Tracks index) {p row : ℕ}
    (hp : index.heap[p]? = some row) : row < index.positions.length :=
  (List.getElem?_eq_some_iff.1 ((h row p).2 hp)).1

theorem put_eq {α : Type u} {xs : List α} {i : ℕ} (h : i < xs.length) (x : α) :
    put xs i x = some (xs.set i x) :=
  if_pos h

theorem getElem?_exchange {heap : List ℕ} {a b rowA rowB : ℕ} (ha : heap[a]? = some rowA)
    (hb : heap[b]? = some rowB) (i : ℕ) :
    ((heap.set a rowB).set b rowA)[i]? = heap[Equiv.swap a b i]? := by
  have hlta : a < heap.length := (List.getElem?_eq_some_iff.1 ha).1
  have hltb : b < heap.length := (List.getElem?_eq_some_iff.1 hb).1
  by_cases hib : i = b
  · rw [hib, Equiv.swap_apply_right, ha, List.getElem?_set_self (by rwa [List.length_set])]
  · rw [List.getElem?_set_ne (Ne.symm hib)]
    by_cases hia : i = a
    · rw [hia, Equiv.swap_apply_left, hb, List.getElem?_set_self hlta]
    · rw [List.getElem?_set_ne (Ne.symm hia), Equiv.swap_apply_of_ne_of_ne hia hib]

/-- Two places are exchanged, the positions with them. -/
theorem swap_spec {index : IndexedHeap} (h : Tracks index) {a b : ℕ} (hab : a ≠ b)
    (ha : a < index.heap.length) (hb : b < index.heap.length) :
    ∃ index', index.swap a b = some index' ∧ Sifted index index' ∧
      ∀ i, index'.heap[i]? = index.heap[Equiv.swap a b i]? := by
  have hrowA : index.heap[a]? = some index.heap[a] := List.getElem?_eq_getElem ha
  have hrowB : index.heap[b]? = some index.heap[b] := List.getElem?_eq_getElem hb
  generalize index.heap[a] = rowA at hrowA
  generalize index.heap[b] = rowB at hrowB
  have hne : rowA ≠ rowB := by
    rintro rfl
    exact hab (h.inj hrowA hrowB)
  have hltA := h.lt hrowA
  have hltB := h.lt hrowB
  refine ⟨⟨(index.heap.set a rowB).set b rowA,
    (index.positions.set rowB (some a)).set rowA (some b)⟩, ?_, ⟨?_, ?_, ?_, ?_⟩, ?_⟩
  · rw [swap, hrowA, hrowB]
    simp only [Option.bind_eq_bind, Option.bind_some, put_eq hltB,
      put_eq (show rowA < (index.positions.set rowB (some a)).length by rwa [List.length_set])]
    rfl
  · intro row p
    change ((index.positions.set rowB (some a)).set rowA (some b))[row]? = some (some p) ↔
      ((index.heap.set a rowB).set b rowA)[p]? = some row
    rw [getElem?_exchange hrowA hrowB]
    by_cases hrA : row = rowA
    · subst hrA
      rw [List.getElem?_set_self (by rwa [List.length_set]), Option.some.injEq, Option.some.injEq]
      constructor
      · rintro rfl
        rw [Equiv.swap_apply_right, hrowA]
      · intro hp
        have hpa := h.inj hp hrowA
        rw [Equiv.swap_apply_eq_iff, Equiv.swap_apply_left] at hpa
        exact hpa.symm
    rw [List.getElem?_set_ne (Ne.symm hrA)]
    by_cases hrB : row = rowB
    · subst hrB
      rw [List.getElem?_set_self hltB, Option.some.injEq, Option.some.injEq]
      constructor
      · rintro rfl
        rw [Equiv.swap_apply_left, hrowB]
      · intro hp
        have hpb := h.inj hp hrowB
        rw [Equiv.swap_apply_eq_iff, Equiv.swap_apply_right] at hpb
        exact hpb.symm
    rw [List.getElem?_set_ne (Ne.symm hrB), h row p]
    by_cases hpa : p = a
    · rw [hpa, Equiv.swap_apply_left, hrowA, hrowB, Option.some.injEq, Option.some.injEq]
      exact ⟨fun heq => absurd heq.symm hrA, fun heq => absurd heq.symm hrB⟩
    by_cases hpb : p = b
    · rw [hpb, Equiv.swap_apply_right, hrowA, hrowB, Option.some.injEq, Option.some.injEq]
      exact ⟨fun heq => absurd heq.symm hrB, fun heq => absurd heq.symm hrA⟩
    · rw [Equiv.swap_apply_of_ne_of_ne hpa hpb]
  · rw [List.length_set, List.length_set]
  · rw [List.length_set, List.length_set]
  · intro row
    constructor
    · rintro ⟨p, hp⟩
      exact ⟨Equiv.swap a b p, by rw [← getElem?_exchange hrowA hrowB]; exact hp⟩
    · rintro ⟨p, hp⟩
      refine ⟨Equiv.swap a b p, ?_⟩
      change ((index.heap.set a rowB).set b rowA)[_]? = _
      rw [getElem?_exchange hrowA hrowB, Equiv.swap_apply_self, hp]
  · exact getElem?_exchange hrowA hrowB

/-- A row that is not there is put at the end. -/
theorem tracks_append {index : IndexedHeap} (htracks : Tracks index) {row : ℕ}
    (hrow : row < index.positions.length) (habsent : ∀ p : ℕ, index.heap[p]? ≠ some row) :
    Tracks ⟨index.heap ++ [row], index.positions.set row (some index.heap.length)⟩ := by
  have hget : ∀ p : ℕ, (index.heap ++ [row])[p]? =
      if p < index.heap.length then index.heap[p]? else if p = index.heap.length then some row
      else none := by
    intro p
    split
    · rename_i hp
      exact List.getElem?_append_left hp
    · split
      · rename_i hp
        rw [hp, List.getElem?_append_right (Nat.le_refl _), Nat.sub_self]
        rfl
      · rw [List.getElem?_eq_none]
        rw [List.length_append, List.length_singleton]
        omega
  intro r p
  change (index.positions.set row (some index.heap.length))[r]? = some (some p) ↔
    (index.heap ++ [row])[p]? = some r
  rw [hget]
  by_cases hr : r = row
  · subst hr
    rw [List.getElem?_set_self hrow, Option.some.injEq, Option.some.injEq]
    constructor
    · rintro rfl
      rw [if_neg (Nat.lt_irrefl _), if_pos rfl]
    · intro hp
      split at hp
      · exact absurd hp (habsent p)
      · split at hp
        · rename_i heq
          exact heq.symm
        · cases hp
  · rw [List.getElem?_set_ne (Ne.symm hr), htracks r p]
    constructor
    · intro hp
      rw [if_pos (List.getElem?_eq_some_iff.1 hp).1, hp]
    · intro hp
      split at hp
      · exact hp
      · split at hp
        · rw [Option.some.injEq] at hp
          exact absurd hp.symm hr
        · cases hp

theorem holds_append (index : IndexedHeap) (row : ℕ) (positions : List (Option ℕ)) (r : ℕ) :
    Holds ⟨index.heap ++ [row], positions⟩ r ↔ r = row ∨ Holds index r := by
  simp only [Holds, ← List.mem_iff_getElem?, List.mem_append, List.mem_singleton]
  exact or_comm

/-! ## Sifting -/

section Sifting

variable {κ : Type u} [LinearOrder κ] (key : ℕ → κ)

/-- The key of the row at a place. -/
def keyAt (key : ℕ → κ) (index : IndexedHeap) (i : ℕ) : κ :=
  key (index.heap[i]?.getD 0)

omit [LinearOrder κ] in
theorem keyAt_eq {index : IndexedHeap} {i row : ℕ} (h : index.heap[i]? = some row) :
    keyAt key index i = key row := by
  rw [keyAt, h, Option.getD_some]

omit [LinearOrder κ] in
theorem keyAt_swap {index index' : IndexedHeap} {a b : ℕ}
    (h : ∀ i, index'.heap[i]? = index.heap[Equiv.swap a b i]?) :
    keyAt key index' = keyAt key index ∘ Equiv.swap a b := by
  funext i
  rw [Function.comp_apply, keyAt, keyAt, h]

/-- The rows of the heap are in order. -/
def Ordered (key : ℕ → κ) (index : IndexedHeap) : Prop :=
  OrderedFrom 0 index.heap.length (keyAt key index)

/-- The order depends on the keys of the rows that are there. -/
theorem Ordered.congr {key key' : ℕ → κ} {index : IndexedHeap} (h : Ordered key index)
    (hagree : ∀ r, Holds index r → key' r = key r) : Ordered key' index := by
  have hat : ∀ i, i < index.heap.length → keyAt key' index i = keyAt key index i := by
    intro i hi
    obtain ⟨entry, hrow⟩ : ∃ entry, index.heap[i]? = some entry := ⟨_, List.getElem?_eq_getElem hi⟩
    rw [keyAt_eq _ hrow, keyAt_eq _ hrow, hagree _ ⟨i, hrow⟩]
  intro i hi hin hlow
  have hpar := parent_lt hi
  rw [hat i hin, hat (parent i) (by omega)]
  exact h i hi hin hlow

theorem siftUp_spec : ∀ (fuel : ℕ) (index : IndexedHeap) (position : ℕ), Tracks index →
    position < index.heap.length → position < fuel →
    Loose 0 index.heap.length position (keyAt key index) →
    Below index.heap.length position (keyAt key index) →
    ∃ index', siftUp key fuel index position = some index' ∧ Sifted index index' ∧
      Ordered key index' := by
  intro fuel
  induction fuel with
  | zero =>
      intro index position _ _ hfuel
      exact absurd hfuel (Nat.not_lt_zero _)
  | succ fuel ih =>
      intro index position htracks hlt hfuel hloose hbelow
      rw [siftUp]
      rcases Nat.eq_zero_or_pos position with rfl | hpos
      · exact ⟨index, rfl, .refl htracks,
          hloose.ordered (fun h => absurd h (Nat.lt_irrefl 0)) hbelow⟩
      rw [if_neg (Nat.ne_of_gt hpos)]
      have hpar := parent_lt hpos
      obtain ⟨above, habove⟩ : ∃ above, index.heap[parent position]? = some above :=
        ⟨_, List.getElem?_eq_getElem (by omega)⟩
      obtain ⟨row, hrow⟩ : ∃ row, index.heap[position]? = some row :=
        ⟨_, List.getElem?_eq_getElem hlt⟩
      simp only [habove, hrow, Option.bind_eq_bind, Option.bind_some]
      by_cases hle : key above ≤ key row
      · rw [if_pos hle]
        refine ⟨index, rfl, .refl htracks, hloose.ordered (fun _ _ => ?_) hbelow⟩
        rwa [keyAt_eq _ habove, keyAt_eq _ hrow]
      · rw [if_neg hle]
        obtain ⟨swapped, hswap, hsifted, hget⟩ := swap_spec htracks (Nat.ne_of_lt hpar)
          (by omega) hlt
        have hlt' : keyAt key index position < keyAt key index (parent position) := by
          rw [keyAt_eq _ habove, keyAt_eq _ hrow]
          exact lt_of_not_ge hle
        obtain ⟨hloose', hbelow'⟩ := hloose.rise hpos hlt hlt'
        rw [← keyAt_swap _ hget, ← hsifted.length] at hloose' hbelow'
        obtain ⟨index', hrun, hsifted', hordered⟩ := ih swapped (parent position) hsifted.tracks
          (by rw [hsifted.length]; omega) (by omega) hloose' hbelow'
        refine ⟨index', ?_, hsifted.trans hsifted', hordered⟩
        rw [hswap]
        exact hrun

/-- The child taken is a child, and the earliest one. -/
theorem earlierChild_spec {index : IndexedHeap} {position leftRow : ℕ}
    (hleft : index.heap[position * 2 + 1]? = some leftRow) :
    ∃ childRow, index.heap[earlierChild key index.heap (position * 2 + 1) leftRow]? = some childRow ∧
      0 < earlierChild key index.heap (position * 2 + 1) leftRow ∧
      parent (earlierChild key index.heap (position * 2 + 1) leftRow) = position ∧
      ∀ d, 0 < d → d < index.heap.length → parent d = position →
        key childRow ≤ keyAt key index d := by
  have hchildren : ∀ d, 0 < d → parent d = position → d = position * 2 + 1 ∨ d = position * 2 + 2 := by
    intro d hd hpar
    rw [parent] at hpar
    omega
  rw [earlierChild]
  cases hright : index.heap[position * 2 + 1 + 1]? with
  | none =>
      simp only
      refine ⟨leftRow, hleft, by omega, by rw [parent]; omega, fun d hd hdn hpar => ?_⟩
      rcases hchildren d hd hpar with rfl | rfl
      · rw [keyAt_eq _ hleft]
      · rw [List.getElem?_eq_none_iff] at hright
        omega
  | some rightRow =>
      simp only
      by_cases hlt : key rightRow < key leftRow
      · rw [if_pos hlt]
        refine ⟨rightRow, hright, by omega, by rw [parent]; omega, fun d hd _ hpar => ?_⟩
        rcases hchildren d hd hpar with rfl | rfl
        · rw [keyAt_eq _ hleft]
          exact le_of_lt hlt
        · rw [keyAt_eq _ hright]
      · rw [if_neg hlt]
        refine ⟨leftRow, hleft, by omega, by rw [parent]; omega, fun d hd _ hpar => ?_⟩
        rcases hchildren d hd hpar with rfl | rfl
        · rw [keyAt_eq _ hleft]
        · rw [keyAt_eq _ hright]
          exact le_of_not_gt hlt

theorem siftDown_spec {low : ℕ} : ∀ (fuel : ℕ) (index : IndexedHeap) (position : ℕ), Tracks index →
    position < index.heap.length → index.heap.length < fuel + position → low ≤ position →
    Loose low index.heap.length position (keyAt key index) →
    Above low position (keyAt key index) →
    ∃ index', siftDown key fuel index position = some index' ∧ Sifted index index' ∧
      OrderedFrom low index'.heap.length (keyAt key index') := by
  intro fuel
  induction fuel with
  | zero =>
      intro index position _ hlt hfuel
      omega
  | succ fuel ih =>
      intro index position htracks hlt hfuel hlow hloose habove
      rw [siftDown]
      by_cases hleaf : index.heap.length ≤ position * 2 + 1
      · rw [if_pos hleaf]
        refine ⟨index, rfl, .refl htracks, hloose.ordered habove fun c hc hcn hpar => ?_⟩
        rw [parent] at hpar
        omega
      rw [if_neg hleaf]
      obtain ⟨leftRow, hleft⟩ : ∃ leftRow, index.heap[position * 2 + 1]? = some leftRow :=
        ⟨_, List.getElem?_eq_getElem (by omega)⟩
      obtain ⟨row, hrow⟩ : ∃ row, index.heap[position]? = some row :=
        ⟨_, List.getElem?_eq_getElem hlt⟩
      obtain ⟨childRow, hchild, hpos, hpar, hleast⟩ := earlierChild_spec key hleft
      simp only [hleft, hrow, Option.bind_eq_bind, Option.bind_some]
      generalize earlierChild key index.heap (position * 2 + 1) leftRow = child at hchild hpos hpar
      rw [hchild, Option.bind_some]
      have hcn : child < index.heap.length := (List.getElem?_eq_some_iff.1 hchild).1
      have hpc : position < child := hpar ▸ parent_lt hpos
      by_cases hle : key row ≤ key childRow
      · rw [if_pos hle]
        refine ⟨index, rfl, .refl htracks, hloose.ordered habove fun c hc hcn hparc => ?_⟩
        rw [keyAt_eq _ hrow]
        exact le_trans hle (hleast c hc hcn hparc)
      · rw [if_neg hle]
        obtain ⟨swapped, hswap, hsifted, hget⟩ := swap_spec htracks (Nat.ne_of_lt hpc) hlt hcn
        rw [← keyAt_eq key hchild] at hleast
        have hlt' : keyAt key index child < keyAt key index position := by
          rw [keyAt_eq _ hchild, keyAt_eq _ hrow]
          exact lt_of_not_ge hle
        obtain ⟨hloose', habove'⟩ := hloose.sink hlow hpos hpar hleast hcn hlt'
        rw [← keyAt_swap _ hget] at hloose' habove'
        rw [← hsifted.length] at hloose'
        obtain ⟨index', hrun, hsifted', hordered⟩ := ih swapped child hsifted.tracks
          (by rw [hsifted.length]; exact hcn) (by rw [hsifted.length]; omega) (by omega) hloose'
          habove'
        refine ⟨index', ?_, hsifted.trans hsifted', hordered⟩
        rw [hswap]
        exact hrun

/-- A heap but for one place is mended from there. -/
theorem repair_spec {index : IndexedHeap} {position : ℕ} (htracks : Tracks index)
    (hlt : position < index.heap.length)
    (hloose : Loose 0 index.heap.length position (keyAt key index)) :
    ∃ index', repair key index position = some index' ∧ Sifted index index' ∧
      Ordered key index' := by
  rw [repair]
  rcases Nat.eq_zero_or_pos position with rfl | hpos
  · rw [if_neg (Nat.lt_irrefl 0)]
    exact siftDown_spec key _ index 0 htracks hlt (by omega) (Nat.le_refl 0) hloose
      (fun h => absurd h (Nat.lt_irrefl 0))
  · have hpar := parent_lt hpos
    obtain ⟨above, habove⟩ : ∃ above, index.heap[parent position]? = some above :=
      ⟨_, List.getElem?_eq_getElem (by omega)⟩
    obtain ⟨row, hrow⟩ : ∃ row, index.heap[position]? = some row :=
      ⟨_, List.getElem?_eq_getElem hlt⟩
    rw [if_pos hpos, hrow, habove]
    simp only [Option.bind_eq_bind, Option.bind_some]
    by_cases hkey : key row < key above
    · rw [if_pos hkey]
      refine siftUp_spec key _ index position htracks hlt (Nat.lt_succ_self _) hloose
        fun c hc hcn hparc => ?_
      have hacross := hloose.across hpos (Nat.zero_le _) c hc hcn hparc
      rw [keyAt_eq _ habove] at hacross
      rw [keyAt_eq _ hrow]
      exact le_trans (le_of_lt hkey) hacross
    · rw [if_neg hkey]
      refine siftDown_spec key _ index position htracks hlt (by omega) (Nat.zero_le _) hloose
        fun _ _ => ?_
      rw [keyAt_eq _ habove, keyAt_eq _ hrow]
      exact le_of_not_gt hkey

theorem heapify_spec : ∀ (count : ℕ) (index : IndexedHeap), Tracks index →
    count ≤ index.heap.length → OrderedFrom count index.heap.length (keyAt key index) →
    ∃ index', heapify key count index = some index' ∧ Sifted index index' ∧
      Ordered key index' := by
  intro count
  induction count with
  | zero =>
      intro index htracks _ hordered
      exact ⟨index, rfl, .refl htracks, hordered⟩
  | succ count ih =>
      intro index htracks hle hordered
      have hnone : 0 < count → ¬ count ≤ parent count := fun hpos =>
        Nat.not_le_of_gt (parent_lt hpos)
      obtain ⟨index', hrun, hsifted, hordered'⟩ := siftDown_spec key
        (index.heap.length + 1) index count htracks hle (by omega) (Nat.le_refl _)
        ⟨fun i hi hin hlow _ hpar => hordered i hi hin (by omega),
          fun hpos hpar => absurd hpar (hnone hpos)⟩
        (fun hpos hpar => absurd hpar (hnone hpos))
      obtain ⟨index'', hrest, hsifted', hordered''⟩ := ih index' hsifted.tracks
        (by rw [hsifted.length]; omega) hordered'
      refine ⟨index'', ?_, hsifted.trans hsifted', hordered''⟩
      rw [heapify, hrun]
      exact hrest

/-- A row that is not there is pushed. -/
theorem push_spec {index : IndexedHeap} {row : ℕ} (htracks : Tracks index)
    (hordered : Ordered key index) (hrow : index.positions[row]? = some none) :
    ∃ index', push key index row = some index' ∧ Tracks index' ∧ Ordered key index' ∧
      index'.positions.length = index.positions.length ∧
      ∀ r, Holds index' r ↔ r = row ∨ Holds index r := by
  have hlt : row < index.positions.length := (List.getElem?_eq_some_iff.1 hrow).1
  have habsent : ∀ p : ℕ, index.heap[p]? ≠ some row := by
    intro p hp
    rw [← htracks row p, hrow] at hp
    cases hp
  have hget : ∀ p, p < index.heap.length → (index.heap ++ [row])[p]? = index.heap[p]? := fun p hp =>
    List.getElem?_append_left hp
  have hpushed := tracks_append htracks hlt habsent
  have hholds := holds_append index row (index.positions.set row (some index.heap.length))
  generalize hnew : (⟨index.heap ++ [row], index.positions.set row (some index.heap.length)⟩ :
    IndexedHeap) = pushed at hpushed hholds
  have hlen : pushed.heap.length = index.heap.length + 1 := by
    rw [← hnew, List.length_append, List.length_singleton]
  have hkey : ∀ i, i < index.heap.length → keyAt key pushed i = keyAt key index i := by
    intro i hi
    rw [← hnew, keyAt, keyAt, hget i hi]
  obtain ⟨index', hrun, hsifted, hordered'⟩ := siftUp_spec key (index.heap.length + 1)
    pushed index.heap.length hpushed (by omega) (Nat.lt_succ_self _)
    ⟨by
      intro i hi hin _ hne hpar
      have hpi := parent_lt hi
      rw [hkey i (by omega), hkey (parent i) (by omega)]
      exact hordered i hi (by omega) (Nat.zero_le _),
    by
      intro _ _ c hc hcn hpar
      have := parent_lt hc
      omega⟩
    (by
      intro c hc hcn hpar
      have := parent_lt hc
      omega)
  refine ⟨index', ?_, hsifted.tracks, hordered', ?_, ?_⟩
  · rw [push, put_eq hlt]
    simp only [Option.bind_eq_bind, Option.bind_some, hnew]
    exact hrun
  · rw [hsifted.rows, ← hnew]
    exact List.length_set
  · intro r
    rw [hsifted.holds, hholds]

/-- The last place is dropped, the row there with it. -/
theorem tracks_dropLast {index : IndexedHeap} (htracks : Tracks index) {last row : ℕ}
    (hlen : index.heap.length = last + 1) (hrow : index.heap[last]? = some row) :
    Tracks ⟨index.heap.dropLast, index.positions.set row none⟩ := by
  have hget : ∀ p : ℕ, index.heap.dropLast[p]? = if p < last then index.heap[p]? else none := by
    intro p
    rw [List.getElem?_dropLast, hlen, Nat.add_sub_cancel]
  intro r p
  change (index.positions.set row none)[r]? = some (some p) ↔ index.heap.dropLast[p]? = some r
  rw [hget]
  by_cases hr : r = row
  · subst hr
    rw [List.getElem?_set_self (htracks.lt hrow), Option.some.injEq]
    constructor
    · intro hp
      cases hp
    · intro hp
      split at hp
      · rename_i hlt
        have heq := htracks.inj hp hrow
        omega
      · cases hp
  · rw [List.getElem?_set_ne (Ne.symm hr), htracks r p]
    constructor
    · intro hp
      have hlt := (List.getElem?_eq_some_iff.1 hp).1
      rw [if_pos, hp]
      by_contra hge
      obtain rfl : p = last := by omega
      rw [hrow, Option.some.injEq] at hp
      exact hr hp.symm
    · intro hp
      split at hp
      · exact hp
      · cases hp

/-- The last row takes the place of another one, which leaves. -/
theorem tracks_moveLast {index : IndexedHeap} (htracks : Tracks index) {last position row moved : ℕ}
    (hlen : index.heap.length = last + 1) (hrow : index.heap[position]? = some row)
    (hmoved : index.heap[last]? = some moved) (hne : position ≠ last) :
    Tracks ⟨(index.heap.set position moved).dropLast,
      (index.positions.set row none).set moved (some position)⟩ := by
  have hlt : position < index.heap.length := (List.getElem?_eq_some_iff.1 hrow).1
  have hget : ∀ p : ℕ, (index.heap.set position moved).dropLast[p]? =
      if p < last then (if p = position then some moved else index.heap[p]?) else none := by
    intro p
    rw [List.getElem?_dropLast, List.length_set, hlen, Nat.add_sub_cancel]
    split
    · split
      · rename_i heq
        rw [heq, List.getElem?_set_self hlt]
      · rename_i hnp
        rw [List.getElem?_set_ne (Ne.symm hnp)]
    · rfl
  have hdiffer : moved ≠ row := by
    rintro rfl
    exact hne (htracks.inj hrow hmoved)
  intro r p
  change ((index.positions.set row none).set moved (some position))[r]? = some (some p) ↔
    (index.heap.set position moved).dropLast[p]? = some r
  rw [hget]
  by_cases hrm : r = moved
  · subst hrm
    rw [List.getElem?_set_self (by rw [List.length_set]; exact htracks.lt hmoved), Option.some.injEq,
      Option.some.injEq]
    constructor
    · rintro rfl
      rw [if_pos (by omega), if_pos rfl]
    · intro hp
      split at hp
      · split at hp
        · rename_i heq
          exact heq.symm
        · have heq := htracks.inj hp hmoved
          omega
      · cases hp
  rw [List.getElem?_set_ne (Ne.symm hrm)]
  by_cases hrr : r = row
  · subst hrr
    rw [List.getElem?_set_self (htracks.lt hrow), Option.some.injEq]
    constructor
    · intro hp
      cases hp
    · intro hp
      split at hp
      · split at hp
        · rw [Option.some.injEq] at hp
          exact absurd hp.symm hrm
        · rename_i hnp
          exact absurd (htracks.inj hp hrow) hnp
      · cases hp
  rw [List.getElem?_set_ne (Ne.symm hrr), htracks r p]
  constructor
  · intro hp
    have hplt := (List.getElem?_eq_some_iff.1 hp).1
    have hpl : p ≠ last := by
      rintro rfl
      rw [hmoved, Option.some.injEq] at hp
      exact hrm hp.symm
    have hpp : p ≠ position := by
      rintro rfl
      rw [hrow, Option.some.injEq] at hp
      exact hrr hp.symm
    rw [if_pos (by omega), if_neg hpp, hp]
  · intro hp
    split at hp
    · split at hp
      · rw [Option.some.injEq] at hp
        exact absurd hp.symm hrm
      · exact hp
    · cases hp

/-- What the heap holds is told by the positions. -/
theorem holds_iff_position {index : IndexedHeap} (htracks : Tracks index) (r : ℕ) :
    Holds index r ↔ ∃ p, index.positions[r]? = some (some p) :=
  exists_congr fun p => (htracks r p).symm

omit [LinearOrder κ] in
/-- Off the row's own place the keys are those the heap was ordered by. -/
theorem keyAt_agree {before : ℕ → κ} {index : IndexedHeap} {row position i : ℕ}
    (htracks : Tracks index) (hagree : ∀ r, r ≠ row → key r = before r)
    (hplace : index.heap[position]? = some row) (hi : i < index.heap.length) (hne : i ≠ position) :
    keyAt key index i = keyAt before index i := by
  obtain ⟨r, hr⟩ : ∃ r, index.heap[i]? = some r := ⟨_, List.getElem?_eq_getElem hi⟩
  have hother : r ≠ row := fun heq => hne (htracks.inj (heq ▸ hr) hplace)
  rw [keyAt_eq _ hr, keyAt_eq _ hr, hagree r hother]

/-- What a removal leaves. -/
structure Removed (index : IndexedHeap) (row : ℕ) (index' : IndexedHeap) : Prop where
  tracks : Tracks index'
  ordered : Ordered key index'
  rows : index'.positions.length = index.positions.length
  gone : index'.positions[row]? = some none
  holds : ∀ r, Holds index' r ↔ r ≠ row ∧ Holds index r

/-- The row was not in the heap. -/
theorem removed_absent {before : ℕ → κ} {index : IndexedHeap} {row : ℕ} (htracks : Tracks index)
    (hordered : Ordered before index) (hagree : ∀ r, r ≠ row → key r = before r)
    (hget : index.positions[row]? = some none) : Removed key index row index := by
  have hnot : ∀ p : ℕ, index.heap[p]? ≠ some row := by
    intro p hp
    rw [← htracks row p, hget] at hp
    cases hp
  have hat : ∀ i, i < index.heap.length → keyAt key index i = keyAt before index i := by
    intro i hi
    obtain ⟨r, hr⟩ : ∃ r, index.heap[i]? = some r := ⟨_, List.getElem?_eq_getElem hi⟩
    rw [keyAt_eq _ hr, keyAt_eq _ hr, hagree r fun heq => hnot i (heq ▸ hr)]
  refine ⟨htracks, ?_, rfl, hget, fun r => ⟨fun hr => ⟨?_, hr⟩, fun hr => hr.2⟩⟩
  · intro i hi hin hlow
    have hpar := parent_lt hi
    rw [hat i hin, hat (parent i) (by omega)]
    exact hordered i hi hin hlow
  · rintro rfl
    obtain ⟨p, hp⟩ := hr
    exact hnot p hp

/-- The row was at the end of the heap. -/
theorem removed_last {before : ℕ → κ} {index : IndexedHeap} {row last : ℕ} (htracks : Tracks index)
    (hordered : Ordered before index) (hagree : ∀ r, r ≠ row → key r = before r)
    (hrow : row < index.positions.length) (hlen : index.heap.length = last + 1)
    (hplace : index.heap[last]? = some row) :
    Removed key index row ⟨index.heap.dropLast, index.positions.set row none⟩ := by
  have htracks' := tracks_dropLast htracks hlen hplace
  refine ⟨htracks', ?_, List.length_set, List.getElem?_set_self hrow, fun r => ?_⟩
  · intro i hi hin hlow
    have hlen' : index.heap.dropLast.length = last := by
      rw [List.length_dropLast, hlen, Nat.add_sub_cancel]
    simp only [hlen'] at hin
    have hkey : ∀ j, j < last →
        keyAt key ⟨index.heap.dropLast, index.positions.set row none⟩ j = keyAt before index j := by
      intro j hj
      rw [← keyAt_agree key htracks hagree hplace (show j < index.heap.length by omega) (by omega),
        keyAt, keyAt]
      simp only [List.getElem?_dropLast, hlen, Nat.add_sub_cancel, if_pos hj]
    have hpar := parent_lt hi
    rw [hkey i hin, hkey (parent i) (by omega)]
    exact hordered i hi (by omega) hlow
  · rw [holds_iff_position htracks', holds_iff_position htracks]
    by_cases hr : r = row
    · subst hr
      simp only [List.getElem?_set_self hrow, Option.some.injEq]
      exact ⟨fun ⟨p, hp⟩ => (Option.some_ne_none p hp.symm).elim, fun h => absurd rfl h.1⟩
    · simp only [List.getElem?_set_ne (Ne.symm hr)]
      exact ⟨fun h => ⟨hr, h⟩, fun h => h.2⟩

/-- The last row takes the place, and is brought to its own. -/
theorem removed_moved {before : ℕ → κ} {index : IndexedHeap} {row moved position last : ℕ}
    (htracks : Tracks index) (hordered : Ordered before index)
    (hagree : ∀ r, r ≠ row → key r = before r) (hrow : row < index.positions.length)
    (hlen : index.heap.length = last + 1) (hplace : index.heap[position]? = some row)
    (hmoved : index.heap[last]? = some moved) (hlast : position ≠ last) :
    ∃ index', repair key ⟨(index.heap.set position moved).dropLast,
        (index.positions.set row none).set moved (some position)⟩ position = some index' ∧
      Removed key index row index' := by
  have hlt : position < index.heap.length := (List.getElem?_eq_some_iff.1 hplace).1
  have hmlt : moved < index.positions.length := htracks.lt hmoved
  have hdiffer : moved ≠ row := by
    rintro rfl
    exact hlast (htracks.inj hplace hmoved)
  have htracks' := tracks_moveLast htracks hlen hplace hmoved hlast
  generalize hnew : (⟨(index.heap.set position moved).dropLast,
    (index.positions.set row none).set moved (some position)⟩ : IndexedHeap) = taken
  rw [hnew] at htracks'
  have hlen' : taken.heap.length = last := by
    rw [← hnew, List.length_dropLast, List.length_set, hlen, Nat.add_sub_cancel]
  have hkey : ∀ j, j < last → j ≠ position → keyAt key taken j = keyAt before index j := by
    intro j hj hne
    rw [← keyAt_agree key htracks hagree hplace (show j < index.heap.length by omega) hne, ← hnew,
      keyAt, keyAt]
    simp only [List.getElem?_dropLast, List.length_set, hlen, Nat.add_sub_cancel, if_pos hj,
      List.getElem?_set_ne (Ne.symm hne)]
  have hloose : Loose 0 taken.heap.length position (keyAt key taken) := by
    rw [hlen']
    refine OrderedFrom.loose ?_ hkey
    intro i hi hin hlow
    exact hordered i hi (by omega) hlow
  obtain ⟨index', hrun, hsifted, hordered'⟩ := repair_spec key htracks'
    (show position < taken.heap.length by omega) hloose
  have hpositions : taken.positions =
      (index.positions.set row none).set moved (some position) := by rw [← hnew]
  have hgone : taken.positions[row]? = some none := by
    rw [hpositions, List.getElem?_set_ne hdiffer, List.getElem?_set_self hrow]
  have hrows : taken.positions.length = index.positions.length := by
    rw [hpositions, List.length_set, List.length_set]
  have hnotheld : ¬ Holds index' row := by
    rw [hsifted.holds, holds_iff_position htracks', hgone]
    rintro ⟨p, hp⟩
    cases hp
  refine ⟨index', hrun, hsifted.tracks, hordered', hsifted.rows.trans hrows, ?_, fun r => ?_⟩
  · have hrow' : row < index'.positions.length := by rwa [hsifted.rows, hrows]
    obtain ⟨place, hget'⟩ : ∃ place, index'.positions[row]? = some place :=
      ⟨_, List.getElem?_eq_getElem hrow'⟩
    cases place with
    | none => exact hget'
    | some p => exact absurd ((holds_iff_position hsifted.tracks row).2 ⟨p, hget'⟩) hnotheld
  · by_cases hr : r = row
    · subst hr
      exact ⟨fun h => absurd h hnotheld, fun h => absurd rfl h.1⟩
    rw [hsifted.holds, holds_iff_position htracks', holds_iff_position htracks, hpositions]
    by_cases hrm : r = moved
    · subst hrm
      rw [List.getElem?_set_self (by rwa [List.length_set])]
      exact ⟨fun _ => ⟨hr, last, (htracks _ _).2 hmoved⟩, fun _ => ⟨position, rfl⟩⟩
    · rw [List.getElem?_set_ne (Ne.symm hrm), List.getElem?_set_ne (Ne.symm hr)]
      exact ⟨fun h => ⟨hr, h⟩, fun h => h.2⟩

/-- A row leaves the heap.  Its own key may be any by now: the heap was one under `before`, which
agrees with the keys on the other rows. -/
theorem remove_spec {before : ℕ → κ} {index : IndexedHeap} {row : ℕ} (htracks : Tracks index)
    (hordered : Ordered before index) (hagree : ∀ r, r ≠ row → key r = before r)
    (hrow : row < index.positions.length) :
    ∃ index', remove key index row = some index' ∧ Removed key index row index' := by
  obtain ⟨place, hget⟩ : ∃ place, index.positions[row]? = some place :=
    ⟨_, List.getElem?_eq_getElem hrow⟩
  rw [remove, hget, Option.bind_eq_bind, Option.bind_some]
  cases place with
  | none => exact ⟨index, rfl, removed_absent key htracks hordered hagree hget⟩
  | some position =>
      have hplace : index.heap[position]? = some row := (htracks row position).1 hget
      have hlt : position < index.heap.length := (List.getElem?_eq_some_iff.1 hplace).1
      cases hlen : index.heap.length with
      | zero => omega
      | succ last =>
          simp only
          by_cases hlast : position = last
          · rw [if_pos hlast]
            subst hlast
            exact ⟨_, rfl, removed_last key htracks hordered hagree hrow hlen hplace⟩
          · rw [if_neg hlast]
            obtain ⟨moved, hmoved⟩ : ∃ moved, index.heap[last]? = some moved :=
              ⟨_, List.getElem?_eq_getElem (by omega)⟩
            have hmlt : moved < index.positions.length := htracks.lt hmoved
            simp only [hmoved, Option.bind_eq_bind, Option.bind_some, put_eq hlt,
              put_eq (show moved < (index.positions.set row none).length by rwa [List.length_set])]
            exact removed_moved key htracks hordered hagree hrow hlen hplace hmoved hlast

end Sifting

/-! ## Renaming -/

/-- The row number that stands for a row after the last one is renamed. -/
def renamed (removed last row : ℕ) : ℕ :=
  if row = last then removed else row

theorem renameLast_spec {index : IndexedHeap} {removed last : ℕ} (htracks : Tracks index)
    (hlen : index.positions.length = last + 1) (hle : removed ≤ last)
    (hgone : index.positions[removed]? = some none) :
    ∃ index', renameLast index removed last = some index' ∧ Tracks index' ∧
      index'.positions.length = last ∧
      ∀ p : ℕ, index'.heap[p]? = index.heap[p]?.map (renamed removed last) := by
  have hfree : ∀ p : ℕ, index.heap[p]? ≠ some removed := by
    intro p hp
    rw [← htracks removed p, hgone] at hp
    cases hp
  have hrow : ∀ {p r : ℕ}, index.heap[p]? = some r → r < last + 1 := fun hp =>
    hlen ▸ htracks.lt hp
  rw [renameLast]
  by_cases heq : removed = last
  · rw [if_pos heq]
    subst heq
    refine ⟨_, rfl, fun row p => ?_, by rw [List.length_dropLast, hlen, Nat.add_sub_cancel],
      fun p => ?_⟩
    · change index.positions.dropLast[row]? = some (some p) ↔ index.heap[p]? = some row
      rw [List.getElem?_dropLast, hlen, Nat.add_sub_cancel]
      split
      · exact htracks row p
      · rename_i hge
        refine ⟨fun hp => (Option.some_ne_none _ hp.symm).elim, fun hp => ?_⟩
        have hlt := hrow hp
        obtain rfl : row = removed := by omega
        exact absurd hp (hfree p)
    · change index.heap[p]? = _
      cases hp : index.heap[p]? with
      | none => rfl
      | some r =>
          rw [Option.map_some, renamed]
          split
          · rename_i hr
            rw [hr]
          · rfl
  · rw [if_neg heq]
    obtain ⟨place, hget⟩ : ∃ place, index.positions[last]? = some place :=
      ⟨_, List.getElem?_eq_getElem (by omega)⟩
    have hput : put index.positions removed place = some (index.positions.set removed place) :=
      put_eq (by omega) _
    have hpositions : ∀ row : ℕ, (index.positions.set removed place).dropLast[row]? =
        if row < last then (if row = removed then some place else index.positions[row]?) else none := by
      intro row
      rw [List.getElem?_dropLast, List.length_set, hlen, Nat.add_sub_cancel]
      split
      · split
        · rename_i hr
          rw [hr, List.getElem?_set_self (by omega)]
        · rename_i hr
          rw [List.getElem?_set_ne (Ne.symm hr)]
      · rfl
    simp only [hget, hput, Option.bind_eq_bind, Option.bind_some]
    -- the heap, where the row `last` has the other number
    obtain ⟨heap, hheap, hheapget⟩ : ∃ heap, rewriteRow index.heap place removed = some heap ∧
        ∀ p : ℕ, heap[p]? = index.heap[p]?.map (renamed removed last) := by
      cases place with
      | none =>
          refine ⟨index.heap, rfl, fun p => ?_⟩
          cases hp : index.heap[p]? with
          | none => rfl
          | some r =>
              rw [Option.map_some, renamed, if_neg]
              rintro rfl
              rw [← htracks r p, hget] at hp
              cases hp
      | some position =>
          have hplace : index.heap[position]? = some last := (htracks last position).1 hget
          refine ⟨index.heap.set position removed,
            put_eq (List.getElem?_eq_some_iff.1 hplace).1 _, fun p => ?_⟩
          by_cases hp : p = position
          · subst hp
            rw [List.getElem?_set_self (List.getElem?_eq_some_iff.1 hplace).1, hplace,
              Option.map_some, renamed, if_pos rfl]
          · rw [List.getElem?_set_ne (Ne.symm hp)]
            cases hr : index.heap[p]? with
            | none => rfl
            | some r =>
                rw [Option.map_some, renamed, if_neg]
                rintro rfl
                exact hp (htracks.inj hr hplace)
    rw [hheap]
    refine ⟨_, rfl, fun row p => ?_, ?_, hheapget⟩
    · change (index.positions.set removed place).dropLast[row]? = some (some p) ↔
        heap[p]? = some row
      rw [hpositions, hheapget, Option.map_eq_some_iff]
      by_cases hr : row = removed
      · subst hr
        rw [if_pos (by omega), if_pos rfl, ← hget, htracks last p]
        constructor
        · exact fun hp => ⟨last, hp, if_pos rfl⟩
        · rintro ⟨r, hp, hren⟩
          rw [renamed] at hren
          split at hren
          · rename_i hlast
            rwa [hlast] at hp
          · exact absurd (hren ▸ hp) (hfree p)
      · rw [if_neg hr]
        constructor
        · intro hp
          split at hp
          · rename_i hlt
            exact ⟨row, (htracks row p).1 hp, if_neg (by omega)⟩
          · cases hp
        · rintro ⟨r, hp, hren⟩
          rw [renamed] at hren
          split at hren
          · exact absurd hren.symm hr
          · rename_i hne
            subst hren
            have hlt := hrow hp
            rw [if_pos (by omega)]
            exact (htracks r p).2 hp
    · rw [List.length_dropLast, List.length_set, hlen, Nat.add_sub_cancel]

/-! ## Filling -/

theorem fill_spec (present : ℕ → Bool) : ∀ (count row : ℕ) (index : IndexedHeap), Tracks index →
    row + count = index.positions.length →
    (∀ r, Holds index r ↔ r < row ∧ present r = true) →
    Tracks (fill present count row index) ∧
      (fill present count row index).positions.length = index.positions.length ∧
      ∀ r, Holds (fill present count row index) r ↔ r < row + count ∧ present r = true := by
  intro count
  induction count with
  | zero =>
      intro row index htracks _ hholds
      exact ⟨htracks, rfl, hholds⟩
  | succ count ih =>
      intro row index htracks hlen hholds
      rw [fill]
      cases hpresent : present row with
      | false =>
          rw [if_neg Bool.false_ne_true]
          obtain ⟨htracks', hlen', hholds'⟩ := ih (row + 1) index htracks (by omega) fun r => by
            rw [hholds]
            refine and_congr_left fun hr => ?_
            have hne : r ≠ row := by
              rintro rfl
              rw [hpresent] at hr
              cases hr
            omega
          exact ⟨htracks', hlen', fun r => by rw [hholds', Nat.add_assoc, Nat.add_comm 1 count]⟩
      | true =>
          rw [if_pos rfl]
          have hlt : row < index.positions.length := by omega
          have habsent : ∀ p : ℕ, index.heap[p]? ≠ some row := by
            intro p hp
            exact Nat.lt_irrefl _ ((hholds row).1 ⟨p, hp⟩).1
          have htracks' := tracks_append htracks hlt habsent
          obtain ⟨htracks'', hlen'', hholds''⟩ := ih (row + 1) _ htracks'
            (by simp only [List.length_set]; omega) fun r => by
              rw [holds_append, hholds]
              constructor
              · rintro (rfl | ⟨hr, hp⟩)
                · exact ⟨Nat.lt_succ_self _, hpresent⟩
                · exact ⟨Nat.lt_succ_of_lt hr, hp⟩
              · rintro ⟨hr, hp⟩
                rcases Nat.lt_succ_iff_lt_or_eq.1 hr with hr | rfl
                · exact .inr ⟨hr, hp⟩
                · exact .inl rfl
          refine ⟨htracks'', by rw [hlen'']; exact List.length_set, fun r => ?_⟩
          rw [hholds'', Nat.add_assoc, Nat.add_comm 1 count]

end IndexedHeap

end Lib
end SvenBridge
