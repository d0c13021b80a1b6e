import Mathlib.Data.List.GetD
import Mathlib.Data.List.Nodup
import Mathlib.Data.List.Range
import SvenBridge.Framing

/-!
# FramingLoss — what a reassembler emits when chunks are dropped

Both routers hand chunks to a relay with `try_send` and drop them when the relay's channel is full.
The chunk format has no sequence number, so a `Reassembler` cannot tell that a chunk is missing.
This file states which losses it survives:

* `survivors keep ds` — the chunks of the stream `frame(d₀) ++ frame(d₁) ++ …` that are not dropped,
  named by (datagram, chunk);
* `trace` — a run of the reassembler that remembers which chunks each returned datagram is made of;
* `noMixUp_iff` — no datagram is mixed up exactly when every surviving final chunk completes its own
  datagram.
-/

namespace SvenBridge

open Lib

/-! ## Dropped chunks -/

section

variable (keep : ℕ → ℕ → Bool) (ds : List Datagram)

/-- How many chunks datagram `i` is framed into. -/
def chunkCount (i : ℕ) : ℕ :=
  (frame (ds.getD i [])).length

/-- Chunk `p.2` of datagram `p.1`. -/
def chunkAt (p : ℕ × ℕ) : Chunk :=
  (frame (ds.getD p.1 [])).getD p.2 []

/-- The chunks of the stream that are not dropped, in order. -/
def survivors : List (ℕ × ℕ) :=
  (List.range ds.length).flatMap (Segment.kept keep (chunkCount ds))

theorem chunkCount_pos (i : ℕ) : 0 < chunkCount ds i :=
  List.length_pos_iff.2 (frame_ne_nil _)

theorem map_chunkAt_whole (i : ℕ) :
    (Segment.whole (chunkCount ds) i).map (chunkAt ds) = frame (ds.getD i []) := by
  apply List.ext_getElem
  · simp [Segment.whole, chunkCount]
  · intro j hj hj'
    simp only [Segment.whole, List.getElem_map, List.getElem_range, chunkAt]
    exact List.getD_eq_getElem _ _ hj'

/-- When nothing is dropped the survivors are the chunk stream itself. -/
theorem map_chunkAt_all :
    ((List.range ds.length).flatMap (Segment.whole (chunkCount ds))).map (chunkAt ds) =
      ds.flatMap frame := by
  have hds : ds = (List.range ds.length).map fun i => ds.getD i [] := by
    apply List.ext_getElem
    · simp
    · intro i hi _
      simp [hi]
  have hpieces : ∀ i, (Segment.whole (chunkCount ds) i).map (chunkAt ds) = frame (ds.getD i []) :=
    map_chunkAt_whole ds
  conv_rhs => rw [hds]
  simp only [List.map_flatMap, List.flatMap_map, hpieces]

end

/-- A sublist of a duplicate-free list is the list filtered by membership. -/
theorem filter_eq_of_sublist {α : Type*} {xs ys : List α} (h : xs.Sublist ys) (hys : ys.Nodup)
    {p : α → Bool} (hp : ∀ y ∈ ys, p y = true ↔ y ∈ xs) : ys.filter p = xs := by
  induction h with
  | slnil =>
      rfl
  | @cons xs ys y hsub ih =>
      have hy : y ∉ xs := fun hmem => (List.nodup_cons.1 hys).1 (hsub.subset hmem)
      have hpy : ¬ p y = true := fun hpy => hy ((hp y (by simp)).1 hpy)
      rw [List.filter_cons_of_neg hpy]
      exact ih (List.nodup_cons.1 hys).2 fun z hz => hp z (by simp [hz])
  | @cons_cons xs ys y hsub ih =>
      have hpy : p y = true := (hp y (by simp)).2 (by simp)
      rw [List.filter_cons_of_pos hpy, ih (List.nodup_cons.1 hys).2]
      intro z hz
      have hne : z ≠ y := fun heq => (List.nodup_cons.1 hys).1 (heq ▸ hz)
      simpa [hne] using hp z (by simp [hz])

theorem nodup_labels (n : ℕ → ℕ) (k : ℕ) :
    ((List.range k).flatMap (Segment.whole n)).Nodup := by
  rw [List.nodup_flatMap]
  refine ⟨fun i _ => List.Nodup.map (fun a b hab => congrArg Prod.snd hab) List.nodup_range, ?_⟩
  refine List.Pairwise.imp ?_ (List.nodup_range (n := k))
  intro i i' hne p hp hp'
  obtain ⟨_, _, rfl⟩ := List.mem_map.1 hp
  obtain ⟨_, _, heq⟩ := List.mem_map.1 hp'
  exact hne (congrArg Prod.fst heq).symm

/-- Every subsequence of the chunk stream is what some loss leaves over. -/
theorem exists_survivors_of_sublist {ds : List Datagram} {cs : List Chunk}
    (h : cs.Sublist (ds.flatMap frame)) :
    ∃ keep, (survivors keep ds).map (chunkAt ds) = cs := by
  rw [← map_chunkAt_all, List.sublist_map_iff] at h
  obtain ⟨labels, hsub, rfl⟩ := h
  have hkept : ∀ i, Segment.kept (fun i j => decide ((i, j) ∈ labels)) (chunkCount ds) i =
      (Segment.whole (chunkCount ds) i).filter fun p => decide (p ∈ labels) := by
    intro i
    rw [Segment.kept, Segment.whole, List.filter_map]
    rfl
  have hfilter := filter_eq_of_sublist (p := fun p => decide (p ∈ labels)) hsub
    (nodup_labels _ _) (by simp)
  rw [List.filter_flatMap] at hfilter
  refine ⟨fun i j => decide ((i, j) ∈ labels), congrArg _ ?_⟩
  rw [survivors, funext hkept]
  exact hfilter

/-! ## Tracing a reassembler -/

/-- A run of the reassembler on labelled chunks: each returned datagram together with the labels of
the chunks pushed since the previous final chunk. -/
def trace {ι : Type*} (chunk : ι → Chunk) (r : Reassembler) (held : List ι) :
    List ι → List (Datagram × List ι)
  | [] => []
  | p :: ps =>
      ((r.push (chunk p)).2.map fun d => (d, held ++ [p])).toList ++
        trace chunk (r.push (chunk p)).1 (if completes (chunk p) then [] else held ++ [p]) ps

/-- The traced run returns the same datagrams. -/
theorem map_fst_trace {ι : Type*} (chunk : ι → Chunk) (r : Reassembler) (held ps : List ι) :
    (trace chunk r held ps).map Prod.fst = (r.pushAll (ps.map chunk)).2 := by
  -- the labels are only carried along
  induction ps generalizing r held with
  | nil =>
      rfl
  | cons p ps ih =>
      have hhead : ∀ o : Option Datagram,
          ((o.map fun d => (d, held ++ [p])).toList).map Prod.fst = o.toList := by
        intro o
        cases o <;> rfl
      simp [trace, Reassembler.pushAll, ih, hhead]

/-- The labels of a piece, as a segment of the abstract receiver. -/
def labelSegment {ι : Type*} (chunk : ι → Chunk) (p : ι) : Segment ι :=
  { final := completes (chunk p)
    body := [p] }

/-- On non-empty chunks a traced run is the abstract receiver running on the labels. -/
theorem trace_eq_feed {ι : Type*} (chunk : ι → Chunk) (held ps : List ι)
    (hps : ∀ p ∈ ps, chunk p ≠ []) :
    trace chunk { buf := held.flatMap fun p => (chunk p).tail } held ps =
      (Segment.feed (fun m => Reassembler.accept (m.flatMap fun p => (chunk p).tail)) held
        (ps.map (labelSegment chunk))).map
          fun m => (m.flatMap fun p => (chunk p).tail, m) := by
  -- the buffer holds the bytes of the labels held, before and after each push
  induction ps generalizing held with
  | nil =>
      rfl
  | cons p ps ih =>
      have hne : chunk p ≠ [] := hps p (by simp)
      have hrest := ih (Segment.absorb held (labelSegment chunk p))
        (fun q hq => hps q (by simp [hq]))
      obtain ⟨header, body, hchunk⟩ : ∃ header body, chunk p = header :: body :=
        List.exists_cons_of_ne_nil hne
      have hbody : (labelSegment chunk p).bind (fun p => (chunk p).tail) =
          { final := isFinal header, body := body } := by
        simp [labelSegment, Segment.bind, completes, hchunk]
      have habsorb := Segment.absorb_bind (fun p => (chunk p).tail) held (labelSegment chunk p)
      have hrelease := Segment.release_bind Reassembler.accept (fun p => (chunk p).tail) held
        (labelSegment chunk p)
      have hheld : (if completes (chunk p) then [] else held ++ [p]) =
          Segment.absorb held (labelSegment chunk p) := rfl
      rw [trace, hheld]
      conv_lhs => rw [hchunk]
      rw [Reassembler.push_eq_segment, ← hbody, habsorb, hrelease, hrest]
      simp only [List.map_cons, Segment.feed, List.map_append]
      congr 1
      cases hout : Segment.release
          (fun m => Reassembler.accept (m.flatMap fun p => (chunk p).tail)) held
            (labelSegment chunk p) with
      | none =>
          rfl
      | some m =>
          have hm : m = held ++ [p] := Segment.eq_of_release hout
          subst hm
          rfl

/-! ## Which losses mix datagrams up -/

/-- The final flag is set on the last chunk of a frame and on no other. -/
theorem completes_frame (d : Datagram) {j : ℕ} (hj : j < (frame d).length) :
    completes ((frame d).getD j []) = (j + 1 == (frame d).length) := by
  -- the only chunk of a short datagram is the last one; of a longer one the last of its remainder
  induction d using frame_induction generalizing j with
  | short d h =>
      have hzero : j = 0 := by
        simpa [frame_short h] using hj
      subst hzero
      simp [frame_short h, completes, isFinal, flagFinal]
  | long d h ih =>
      have hrest : 0 < (frame (d.drop maxChunk)).length :=
        List.length_pos_iff.2 (frame_ne_nil _)
      rw [frame_long h] at hj ⊢
      cases j with
      | zero =>
          have hne : 0 + 1 ≠ (frame (d.drop maxChunk)).length + 1 := by omega
          simp only [List.getD_cons_zero, List.length_cons, completes, isFinal]
          simpa using hne.symm
      | succ j =>
          have hlt : j < (frame (d.drop maxChunk)).length := by
            simpa using hj
          simpa using ih hlt

section

variable (keep : ℕ → ℕ → Bool) (ds : List Datagram)

/-- The chunks a relay receives. -/
def received : List Chunk :=
  (survivors keep ds).map (chunkAt ds)

/-- The bytes of a list of chunks, in order. -/
def bytesOf (labels : List (ℕ × ℕ)) : List UInt8 :=
  labels.flatMap fun p => (chunkAt ds p).tail

/-- Every datagram the reassembler returns is put together from all chunks of one original and
nothing else, and the returned datagrams are a subsequence of the originals. -/
def NoMixUp : Prop :=
  (∀ m ∈ trace (chunkAt ds) {} [] (survivors keep ds),
    ∃ i < ds.length, m.2 = Segment.whole (chunkCount ds) i ∧ m.1 = ds.getD i []) ∧
  (({} : Reassembler).pushAll (received keep ds)).2.Sublist ds

/-- Whenever the final chunk of a datagram survives, either all of its chunks survive and no chunk
is left over from before it, or what has gathered is too long for the reassembler's guard. -/
def CleanLoss : Prop :=
  ∀ i < ds.length, Segment.lastKept keep (chunkCount ds) i = true →
    (Segment.leftover keep (chunkCount ds) i = [] ∧ ∀ j < chunkCount ds i, keep i j = true) ∨
      maxDatagram <
        (bytesOf ds (Segment.leftover keep (chunkCount ds) i ++
          Segment.kept keep (chunkCount ds) i)).length

variable {keep ds}

theorem mem_survivors {p : ℕ × ℕ} (hp : p ∈ survivors keep ds) :
    p.1 < ds.length ∧ p.2 < chunkCount ds p.1 := by
  obtain ⟨i, hi, hmem⟩ := List.mem_flatMap.1 hp
  obtain ⟨j, hj, rfl⟩ := List.mem_map.1 hmem
  exact ⟨List.mem_range.1 hi, List.mem_range.1 (List.mem_filter.1 hj).1⟩

theorem chunkAt_ne_nil {p : ℕ × ℕ} (hp : p.2 < chunkCount ds p.1) : chunkAt ds p ≠ [] := by
  have hmem : chunkAt ds p ∈ frame (ds.getD p.1 []) := by
    rw [chunkAt, List.getD_eq_getElem _ _ hp]
    exact List.getElem_mem hp
  exact frame_chunk_ne_nil hmem

theorem bytesOf_whole (i : ℕ) :
    bytesOf ds (Segment.whole (chunkCount ds) i) = ds.getD i [] := by
  have hmap : (Segment.whole (chunkCount ds) i).flatMap (fun p => (chunkAt ds p).tail) =
      ((Segment.whole (chunkCount ds) i).map (chunkAt ds)).flatMap List.tail := by
    rw [List.flatMap_map]
  rw [bytesOf, hmap, map_chunkAt_whole, flatMap_tail_frame]

theorem map_labelSegment_survivors :
    (survivors keep ds).map (labelSegment (chunkAt ds)) =
      Segment.stream keep (chunkCount ds) ds.length := by
  have hpieces : ∀ i, (Segment.kept keep (chunkCount ds) i).map (labelSegment (chunkAt ds)) =
      Segment.pieces keep (chunkCount ds) i := by
    intro i
    rw [Segment.kept, Segment.pieces, List.map_map]
    refine List.map_congr_left fun j hj => ?_
    have hlt : j < chunkCount ds i := List.mem_range.1 (List.mem_filter.1 hj).1
    simp only [Function.comp_apply, labelSegment, chunkAt, completes_frame _ hlt]
    rfl
  rw [Segment.stream_eq_flatMap, survivors, List.map_flatMap, funext hpieces]

/-- The traced run is the abstract receiver on the surviving labels. -/
theorem trace_survivors :
    trace (chunkAt ds) {} [] (survivors keep ds) =
      (Segment.feed (fun m => Reassembler.accept (bytesOf ds m)) []
        (Segment.stream keep (chunkCount ds) ds.length)).map fun m => (bytesOf ds m, m) := by
  rw [← map_labelSegment_survivors]
  exact trace_eq_feed (chunkAt ds) [] _ fun p hp => chunkAt_ne_nil (mem_survivors hp).2

theorem accept_eq_false_iff {complete : List UInt8} :
    Reassembler.accept complete = false ↔ maxDatagram < complete.length := by
  simp [Reassembler.accept]

/-- A clean loss returns a subsequence of the datagrams. -/
theorem sublist_of_cleanLoss (h : CleanLoss keep ds) :
    (({} : Reassembler).pushAll (received keep ds)).2.Sublist ds := by
  have hds : (List.range ds.length).map (fun i => ds.getD i []) = ds := by
    refine List.ext_getElem (by simp) fun i hi hi' => ?_
    simp only [List.getElem_map, List.getElem_range]
    exact List.getD_eq_getElem _ _ hi'
  have hout := map_fst_trace (chunkAt ds) {} [] (survivors keep ds)
  rw [trace_survivors, Segment.feed_stream _ fun i _ => chunkCount_pos ds i, List.map_map,
    List.map_filterMap] at hout
  rw [received, ← hout]
  conv_rhs => rw [← hds]
  rw [← List.filterMap_eq_map]
  -- Each datagram is either returned as it was or not returned at all.
  have hsub : ∀ is : List ℕ, (∀ i ∈ is, i < ds.length) →
      (is.filterMap fun i => (Segment.emission keep (chunkCount ds)
        (fun m => Reassembler.accept (bytesOf ds m)) i).map
          (Prod.fst ∘ fun m => (bytesOf ds m, m))).Sublist
        (is.filterMap (some ∘ fun i => ds.getD i [])) := by
    intro is
    -- datagram by datagram: none is returned, or the whole one
    induction is with
    | nil =>
        intro _
        exact .slnil
    | cons i is ih =>
        intro his
        have hrest := ih fun i' hi' => his i' (by simp [hi'])
        cases hemit : Segment.emission keep (chunkCount ds)
            (fun m => Reassembler.accept (bytesOf ds m)) i with
        | none =>
            simpa [hemit] using hrest.cons _
        | some m =>
            have hcond : (Segment.lastKept keep (chunkCount ds) i &&
                Reassembler.accept (bytesOf ds (Segment.leftover keep (chunkCount ds) i ++
                  Segment.kept keep (chunkCount ds) i))) = true := by
              by_contra hfalse
              simp [Segment.emission, hfalse] at hemit
            obtain ⟨hlast, hacc⟩ := Bool.and_eq_true_iff.1 hcond
            have hm : Segment.leftover keep (chunkCount ds) i ++
                Segment.kept keep (chunkCount ds) i = m := by
              simpa [Segment.emission, hcond] using hemit
            have hwhole : m = Segment.whole (chunkCount ds) i := by
              rcases h i (his i (by simp)) hlast with hok | hlong
              · rw [← hm]
                exact (Segment.leftover_append_kept_eq_whole_iff (chunkCount_pos ds i) hlast).2
                  ⟨rfl, hok⟩
              · rw [accept_eq_false_iff.2 hlong] at hacc
                cases hacc
            subst hwhole
            simpa [hemit, bytesOf_whole] using hrest
  exact hsub _ fun i hi => List.mem_range.1 hi

/-- No mixed-up datagrams exactly under a clean loss. -/
theorem noMixUp_iff_cleanLoss (keep : ℕ → ℕ → Bool) (ds : List Datagram) :
    NoMixUp keep ds ↔ CleanLoss keep ds := by
  have hwhole := @Segment.emits_whole_iff keep _
    (fun m => Reassembler.accept (bytesOf ds m)) _
    fun i (_ : i < ds.length) => chunkCount_pos ds i
  simp only [accept_eq_false_iff] at hwhole
  constructor
  · rintro ⟨htrace, _⟩
    refine hwhole.1 fun m hm => ?_
    have hmem : (bytesOf ds m, m) ∈ trace (chunkAt ds) {} [] (survivors keep ds) := by
      rw [trace_survivors]
      exact List.mem_map.2 ⟨m, hm, rfl⟩
    obtain ⟨i, hi, heq, _⟩ := htrace _ hmem
    exact ⟨i, hi, heq⟩
  · intro hclean
    refine ⟨fun m hm => ?_, sublist_of_cleanLoss hclean⟩
    rw [trace_survivors] at hm
    obtain ⟨labels, hlabels, rfl⟩ := List.mem_map.1 hm
    obtain ⟨i, hi, rfl⟩ := hwhole.2 hclean labels hlabels
    exact ⟨i, hi, rfl, bytesOf_whole i⟩

end

/-- The second chunk of a 1901-byte datagram is dropped: its first chunk runs into the next
datagram. -/
theorem exists_mixed_up_datagram :
    ¬ ∀ (ds : List Datagram) (cs : List Chunk), (∀ d ∈ ds, d.length ≤ udpReadBuf) →
      cs.Sublist (ds.flatMap frame) → (({} : Reassembler).pushAll cs).2.Sublist ds := by
  intro hall
  let d₁ : Datagram := List.replicate (maxChunk + 1) 0
  have hlen : d₁.length = maxChunk + 1 := List.length_replicate
  have hlong : frame d₁ = (0 :: d₁.take maxChunk) :: frame (d₁.drop maxChunk) :=
    frame_long (by omega)
  have hshort : frame [7] = [[flagFinal, 7]] := rfl
  have hsub := hall [d₁, [7]] [0 :: d₁.take maxChunk, [flagFinal, 7]]
    (by
      intro d hd
      rcases List.mem_pair.1 hd with rfl | rfl
      · rw [hlen]
        decide
      · decide)
    (by
      rw [List.flatMap_cons, List.flatMap_cons, List.flatMap_nil, hlong, hshort]
      exact .cons_cons _ (List.sublist_append_right _ _))
  have htake : (d₁.take maxChunk).length = maxChunk := by
    rw [List.length_take, hlen]
    omega
  have hbound : ¬ maxDatagram < maxChunk + 1 := by decide
  have hmore : isFinal 0 = false := by decide
  have hfinal : isFinal flagFinal = true := by decide
  have hout : (({} : Reassembler).pushAll [0 :: d₁.take maxChunk, [flagFinal, 7]]).2 =
      [d₁.take maxChunk ++ [7]] := by
    simp [Reassembler.pushAll, Reassembler.push, hmore, hfinal, htake, hbound]
  rw [hout, List.singleton_sublist, List.mem_pair] at hsub
  rcases hsub with hsub | hsub
  · have hmem : (7 : UInt8) ∈ d₁ := hsub ▸ by simp
    have hzero : (7 : UInt8) = 0 := List.eq_of_mem_replicate hmem
    exact absurd hzero (by decide)
  · have hcount := congrArg List.length hsub
    rw [List.length_append, htake] at hcount
    exact absurd hcount (by decide)

end SvenBridge
