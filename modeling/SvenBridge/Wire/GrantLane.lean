import SvenBridge.Lib.Machine
import Mathlib.Data.List.Basic

/-!
# GrantLane — the slots between an interface and the manifold

A lane is a pair of bounded rings over a fixed set of slots (`manifold/grant_lane.rs`): the
producer takes a free slot, fills it and commits it; the consumer peeks at the oldest filled slot
and gives it back.  The inbound side adds a wake-up protocol (`interface_seam.rs`,
`inbound_dispatch.rs`): the first commit after an `acknowledge` announces the lane.  Both tasks run
on the one thread of the bridge's runtime, so that each atomic operation is seen at once by the other
side; `Release` and `AcqRel` orders between threads are not modelled.  This file contains

* `GrantLane` and its operations, and `Conserved`: no operation loses a slot;
* `laneMachine` — an interface task and the manifold sharing a lane, one atomic operation a step;
* `lane_fifo` and `lane_not_stranded` — every committed frame is consumed once and in order, and a
  frame that waits is never forgotten.
-/

namespace SvenBridge
namespace Wire

open Lib

/-! ## Slots -/

/-- `HeapFrameSlot`: the first `len` of its bytes are the frame, and the others are left over from
earlier ones. -/
structure HeapFrameSlot (cap : ℕ) where
  len : ℕ
  bytes : List UInt8
  fits : bytes.length ≤ cap
  len_le : len ≤ bytes.length
  deriving DecidableEq

namespace HeapFrameSlot

variable {cap : ℕ}

def empty (cap : ℕ) : HeapFrameSlot cap where
  len := 0
  bytes := []
  fits := Nat.zero_le cap
  len_le := Nat.le_refl 0

def frame (slot : HeapFrameSlot cap) : List UInt8 :=
  slot.bytes.take slot.len

/-- `fill`: a shorter frame is written over the front of the old bytes. -/
def fill (slot : HeapFrameSlot cap) (frame : List UInt8) (h : frame.length ≤ cap) :
    HeapFrameSlot cap where
  len := frame.length
  bytes :=
    if slot.bytes.length < frame.length then frame
    else frame ++ slot.bytes.drop frame.length
  fits := by
    have := slot.fits
    split <;> simp <;> omega
  len_le := by
    split <;> simp

/-- `slot.len = slot.bytes.len()`: all of the bytes are the frame. -/
def sealed (slot : HeapFrameSlot cap) : HeapFrameSlot cap where
  len := slot.bytes.length
  bytes := slot.bytes
  fits := slot.fits
  len_le := Nat.le_refl _

@[simp] theorem frame_fill (slot : HeapFrameSlot cap) {frame : List UInt8}
    (h : frame.length ≤ cap) : (slot.fill frame h).frame = frame := by
  simp only [HeapFrameSlot.frame, fill]
  split
  · exact List.take_length
  · exact List.take_left

@[simp] theorem frame_sealed (slot : HeapFrameSlot cap) : slot.sealed.frame = slot.bytes :=
  List.take_length

end HeapFrameSlot

/-! ## Lanes -/

/-- `RingBuffer::push`: `none` when the ring is full. -/
def ringPush {α : Type} (capacity : ℕ) (ring : List α) (slot : α) : Option (List α) :=
  if ring.length < capacity then some (ring ++ [slot]) else none

/-- A lane: its two rings, and the slot each end holds. -/
structure GrantLane (cap : ℕ) where
  capacity : ℕ
  free : List (HeapFrameSlot cap)
  filled : List (HeapFrameSlot cap)
  granted : Option (HeapFrameSlot cap)
  peeked : Option (HeapFrameSlot cap)
  deriving DecidableEq

/-- `tokio_grant_lane`. -/
def tokioGrantLane (cap depth : ℕ) : GrantLane cap where
  capacity := max depth 1
  free := List.replicate (max depth 1) (.empty cap)
  filled := []
  granted := none
  peeked := none

namespace GrantLane

variable {cap : ℕ}

/-- `try_grant`; `granted` is the slot it hands out, if any. -/
def tryGrant (lane : GrantLane cap) : GrantLane cap :=
  match lane.granted, lane.free with
  | none, slot :: free => { lane with granted := some slot, free := free }
  | _, _ => lane

/-- What the holder of the granted slot writes into it. -/
def write (lane : GrantLane cap) (f : HeapFrameSlot cap → HeapFrameSlot cap) : GrantLane cap :=
  { lane with granted := lane.granted.map f }

/-- `commit`: on a full ring the slot would be lost. -/
def commit (lane : GrantLane cap) : GrantLane cap :=
  match lane.granted with
  | none => lane
  | some slot =>
      match ringPush lane.capacity lane.filled slot with
      | some filled => { lane with granted := none, filled := filled }
      | none => { lane with granted := none }

/-- `try_peek`; `peeked` is the slot it shows, if any. -/
def tryPeek (lane : GrantLane cap) : GrantLane cap :=
  match lane.peeked, lane.filled with
  | none, slot :: filled => { lane with peeked := some slot, filled := filled }
  | _, _ => lane

/-- `release`: on a full ring the slot would be lost. -/
def release (lane : GrantLane cap) : GrantLane cap :=
  match lane.peeked with
  | none => lane
  | some slot =>
      match ringPush lane.capacity lane.free slot with
      | some free => { lane with peeked := none, free := free }
      | none => { lane with peeked := none }

/-- Every slot of the lane is in a ring or in a hand. -/
def Conserved (lane : GrantLane cap) : Prop :=
  lane.free.length + lane.filled.length + lane.granted.toList.length + lane.peeked.toList.length =
    lane.capacity

/-- The committed frames that have not been released, oldest first. -/
def waiting (lane : GrantLane cap) : List (List UInt8) :=
  (lane.peeked.toList ++ lane.filled).map HeapFrameSlot.frame

theorem conserved_new (cap depth : ℕ) : (tokioGrantLane cap depth).Conserved := by
  simp [Conserved, tokioGrantLane]

/-! ### Granting -/

theorem tryGrant_some {lane : GrantLane cap} {slot : HeapFrameSlot cap}
    (h : lane.granted = some slot) : lane.tryGrant = lane := by
  simp [tryGrant, h]

theorem conserved_tryGrant {lane : GrantLane cap} (h : lane.Conserved) :
    lane.tryGrant.Conserved := by
  obtain ⟨capacity, free, filled, granted, peeked⟩ := lane
  cases granted <;> cases free <;> simp [tryGrant, Conserved] at h ⊢ <;> omega

@[simp] theorem waiting_tryGrant (lane : GrantLane cap) : lane.tryGrant.waiting = lane.waiting := by
  obtain ⟨capacity, free, filled, granted, peeked⟩ := lane
  cases granted <;> cases free <;> rfl

theorem conserved_write {lane : GrantLane cap} (f : HeapFrameSlot cap → HeapFrameSlot cap)
    (h : lane.Conserved) : (lane.write f).Conserved := by
  obtain ⟨capacity, free, filled, granted, peeked⟩ := lane
  cases granted <;> exact h

@[simp] theorem waiting_write (lane : GrantLane cap) (f : HeapFrameSlot cap → HeapFrameSlot cap) :
    (lane.write f).waiting = lane.waiting :=
  rfl

/-! ### Committing -/

/-- A granted slot always finds room in the ring of filled ones. -/
theorem commit_some {lane : GrantLane cap} {slot : HeapFrameSlot cap} (h : lane.Conserved)
    (hgranted : lane.granted = some slot) :
    lane.commit = { lane with granted := none, filled := lane.filled ++ [slot] } := by
  have hroom : lane.filled.length < lane.capacity := by
    simp only [Conserved, hgranted, Option.toList_some, List.length_singleton] at h
    omega
  simp only [commit, hgranted, ringPush, hroom, if_true]

theorem conserved_commit {lane : GrantLane cap} (h : lane.Conserved) : lane.commit.Conserved := by
  cases hgranted : lane.granted with
  | none =>
      rw [commit, hgranted]
      exact h
  | some slot =>
      rw [commit_some h hgranted]
      simp only [Conserved, hgranted, Option.toList_some, Option.toList_none, List.length_append,
        List.length_singleton, List.length_nil] at h ⊢
      omega

theorem waiting_commit {lane : GrantLane cap} {slot : HeapFrameSlot cap} (h : lane.Conserved)
    (hgranted : lane.granted = some slot) :
    lane.commit.waiting = lane.waiting ++ [slot.frame] := by
  rw [commit_some h hgranted]
  simp [waiting]

/-! ### Peeking and releasing -/

theorem conserved_tryPeek {lane : GrantLane cap} (h : lane.Conserved) :
    lane.tryPeek.Conserved := by
  obtain ⟨capacity, free, filled, granted, peeked⟩ := lane
  cases peeked <;> cases filled <;> simp [tryPeek, Conserved] at h ⊢ <;> omega

@[simp] theorem waiting_tryPeek (lane : GrantLane cap) : lane.tryPeek.waiting = lane.waiting := by
  obtain ⟨capacity, free, filled, granted, peeked⟩ := lane
  cases peeked <;> cases filled <;> rfl

/-- A peek shows the oldest waiting frame, if there is one. -/
theorem peeked_tryPeek (lane : GrantLane cap) :
    lane.tryPeek.peeked.map HeapFrameSlot.frame = lane.waiting.head? := by
  obtain ⟨capacity, free, filled, granted, peeked⟩ := lane
  cases peeked <;> cases filled <;> rfl

/-- A peeked slot always finds room in the ring of free ones. -/
theorem release_some {lane : GrantLane cap} {slot : HeapFrameSlot cap} (h : lane.Conserved)
    (hpeeked : lane.peeked = some slot) :
    lane.release = { lane with peeked := none, free := lane.free ++ [slot] } := by
  have hroom : lane.free.length < lane.capacity := by
    simp only [Conserved, hpeeked, Option.toList_some, List.length_singleton] at h
    omega
  simp only [release, hpeeked, ringPush, hroom, if_true]

theorem conserved_release {lane : GrantLane cap} (h : lane.Conserved) :
    lane.release.Conserved := by
  cases hpeeked : lane.peeked with
  | none =>
      rw [release, hpeeked]
      exact h
  | some slot =>
      rw [release_some h hpeeked]
      simp only [Conserved, hpeeked, Option.toList_some, Option.toList_none, List.length_append,
        List.length_singleton, List.length_nil] at h ⊢
      omega

theorem waiting_release {lane : GrantLane cap} {slot : HeapFrameSlot cap} (h : lane.Conserved)
    (hpeeked : lane.peeked = some slot) : lane.waiting = slot.frame :: lane.release.waiting := by
  rw [release_some h hpeeked]
  simp [waiting, hpeeked]

end GrantLane
/-! ## A lane and its two tasks -/

/-- `MAX_INBOUND_BATCH`. -/
def maxInboundBatch : ℕ := 64

/-- Where the interface task stands in `commit_inbound`. -/
inductive InterfacePc
  | idle
  /-- `commit` is done and `needs_announce` is next. -/
  | committed
  /-- `needs_announce` said yes and `notify.send` is next. -/
  | announcing
  deriving DecidableEq

/-- Where the manifold stands in its loop. -/
inductive ManifoldPc
  | selecting
  | collecting
  /-- In the frame loop of this lane, with this much of its budget left. -/
  | draining (budget : ℕ)
  | retaining
  deriving DecidableEq

/-- An inbound lane between an interface task and the manifold. -/
structure LaneState (cap : ℕ) where
  lane : GrantLane cap
  announced : Bool
  /-- How often the lane's id is in the `notify` channel. -/
  notify : ℕ
  /-- The lane is in `ready_lanes`. -/
  ready : Bool
  interface : InterfacePc
  manifold : ManifoldPc
  /-- The frames committed so far, and those the manifold has taken. -/
  sent : List (List UInt8)
  consumed : List (List UInt8)

inductive LaneAction (cap : ℕ)
  | grant
  /-- The deframer leaves these bytes in the granted slot. -/
  | deframe (bytes : List UInt8) (h : bytes.length ≤ cap)
  | commitInbound
  | needsAnnounce
  | notifySend
  | recv
  /-- The arm of the select that is taken while lanes are ready. -/
  | yieldNow
  /-- A pass over the ready lanes because of another lane. -/
  | otherLane
  /-- `InterfaceAttached`. -/
  | attached
  | tryRecv
  | acknowledge
  | ingest
  /-- The frame loop ends: the lane is empty, the budget is used up or the crypto pool is full. -/
  | leaveLoop
  | retain

variable {cap : ℕ}

def LaneState.step (s : LaneState cap) : LaneAction cap → Option (LaneState cap)
  | .grant =>
      if s.interface = .idle then some { s with lane := s.lane.tryGrant } else none
  | .deframe bytes h =>
      if s.interface = .idle then
        some { s with lane := s.lane.write fun _ => ⟨0, bytes, h, Nat.zero_le _⟩ }
      else none
  | .commitInbound =>
      if s.interface = .idle then
        match s.lane.granted with
        | none => some s
        | some slot =>
            if slot.bytes.isEmpty then some s
            else
              some { s with
                lane := (s.lane.write HeapFrameSlot.sealed).commit
                interface := .committed
                sent := s.sent ++ [slot.bytes] }
      else none
  | .needsAnnounce =>
      if s.interface = .committed then
        -- `!announced.swap(true)`
        some { s with
          announced := true
          interface := if s.announced then .idle else .announcing }
      else none
  | .notifySend =>
      if s.interface = .announcing then
        some { s with notify := s.notify + 1, interface := .idle }
      else none
  | .recv =>
      if s.manifold = .selecting ∧ 0 < s.notify then
        some { s with notify := s.notify - 1, ready := true, manifold := .collecting }
      else none
  | .yieldNow =>
      if s.manifold = .selecting ∧ s.ready = true then
        some { s with manifold := .collecting }
      else none
  | .otherLane =>
      if s.manifold = .selecting then some { s with manifold := .collecting } else none
  | .attached =>
      if s.manifold = .selecting then some { s with ready := true } else none
  | .tryRecv =>
      if s.manifold = .collecting ∧ 0 < s.notify then
        some { s with notify := s.notify - 1, ready := true }
      else none
  | .acknowledge =>
      if s.manifold = .collecting then
        if s.ready then some { s with announced := false, manifold := .draining maxInboundBatch }
        else some { s with manifold := .retaining }
      else none
  | .ingest =>
      match s.manifold, s.lane.tryPeek.peeked with
      | .draining (budget + 1), some slot =>
          some { s with
            lane := s.lane.tryPeek.release
            manifold := .draining budget
            consumed := s.consumed ++ [slot.frame] }
      | _, _ => none
  | .leaveLoop =>
      match s.manifold with
      | .draining _ => some { s with manifold := .retaining }
      | _ => none
  | .retain =>
      if s.manifold = .retaining then
        if s.ready then
          some { s with
            lane := s.lane.tryPeek
            ready := s.lane.tryPeek.peeked.isSome
            manifold := .selecting }
        else some { s with manifold := .selecting }
      else none

/-- A new lane, already known to the manifold or not. -/
def laneMachine (cap depth : ℕ) (attached : Bool) : Machine (LaneState cap) (LaneAction cap) where
  init :=
    { lane := tokioGrantLane cap depth
      announced := false
      notify := 0
      ready := attached
      interface := .idle
      manifold := .selecting
      sent := []
      consumed := [] }
  step := LaneState.step

/-! ## Every frame once and in order -/

/-- Slots are conserved, and what was sent is what was consumed and what waits. -/
structure LaneState.Fifo (s : LaneState cap) : Prop where
  conserved : s.lane.Conserved
  sent_eq : s.sent = s.consumed ++ s.lane.waiting

theorem LaneState.Fifo.step {s t : LaneState cap} {a : LaneAction cap} (h : s.Fifo)
    (hstep : s.step a = some t) : t.Fifo := by
  obtain ⟨hconserved, hsent⟩ := h
  cases a with
  | grant =>
      simp only [LaneState.step, Option.ite_none_right_eq_some, Option.some.injEq] at hstep
      obtain ⟨-, rfl⟩ := hstep
      exact ⟨GrantLane.conserved_tryGrant hconserved, by simpa using hsent⟩
  | deframe bytes hbytes =>
      simp only [LaneState.step, Option.ite_none_right_eq_some, Option.some.injEq] at hstep
      obtain ⟨-, rfl⟩ := hstep
      exact ⟨GrantLane.conserved_write _ hconserved, by simpa using hsent⟩
  | commitInbound =>
      simp only [LaneState.step, Option.ite_none_right_eq_some] at hstep
      obtain ⟨-, hstep⟩ := hstep
      cases hgranted : s.lane.granted with
      | none =>
          simp only [hgranted, Option.some.injEq] at hstep
          exact hstep ▸ ⟨hconserved, hsent⟩
      | some slot =>
          simp only [hgranted] at hstep
          split at hstep
          · cases hstep
            exact ⟨hconserved, hsent⟩
          · cases hstep
            have hwritten := GrantLane.conserved_write HeapFrameSlot.sealed hconserved
            have hslot : (s.lane.write HeapFrameSlot.sealed).granted = some slot.sealed := by
              simp [GrantLane.write, hgranted]
            refine ⟨GrantLane.conserved_commit hwritten, ?_⟩
            rw [GrantLane.waiting_commit hwritten hslot, GrantLane.waiting_write,
              HeapFrameSlot.frame_sealed, ← List.append_assoc, ← hsent]
  | ingest =>
      simp only [LaneState.step] at hstep
      split at hstep
      · next budget slot hmanifold hslot =>
          cases hstep
          have hpeek := GrantLane.conserved_tryPeek hconserved
          refine ⟨GrantLane.conserved_release hpeek, ?_⟩
          have hhead := GrantLane.waiting_release hpeek hslot
          rw [GrantLane.waiting_tryPeek] at hhead
          simp only [hsent, hhead, List.append_assoc, List.singleton_append]
      · cases hstep
  | retain =>
      simp only [LaneState.step, Option.ite_none_right_eq_some] at hstep
      obtain ⟨-, hstep⟩ := hstep
      split at hstep
      · cases hstep
        exact ⟨GrantLane.conserved_tryPeek hconserved, by simpa using hsent⟩
      · cases hstep
        exact ⟨hconserved, hsent⟩
  | acknowledge =>
      simp only [LaneState.step, Option.ite_none_right_eq_some] at hstep
      obtain ⟨-, hstep⟩ := hstep
      split at hstep <;> cases hstep <;> exact ⟨hconserved, hsent⟩
  | leaveLoop =>
      simp only [LaneState.step] at hstep
      split at hstep
      · cases hstep
        exact ⟨hconserved, hsent⟩
      · cases hstep
  | needsAnnounce | notifySend | recv | yieldNow | otherLane | attached | tryRecv =>
      simp only [LaneState.step, Option.ite_none_right_eq_some, Option.some.injEq] at hstep
      obtain ⟨-, rfl⟩ := hstep
      exact ⟨hconserved, hsent⟩

/-- Every frame an interface commits is taken by the manifold once and in order, whatever the
interleaving; no slot is ever lost. -/
theorem lane_fifo {depth : ℕ} {attached : Bool} {s : LaneState cap}
    (h : (laneMachine cap depth attached).Reachable Machine.always s) :
    s.lane.Conserved ∧ s.sent = s.consumed ++ s.lane.waiting := by
  have hfifo : s.Fifo := by
    refine Machine.Reachable.invariant (I := LaneState.Fifo)
      ⟨GrantLane.conserved_new cap depth, rfl⟩ ?_ h
    intro s a t hs _ hstep
    exact hs.step hstep
  exact ⟨hfifo.conserved, hfifo.sent_eq⟩

/-- A frame committed and taken, and one that waits unannounced to the select. -/
def laneRun : List (LaneAction 4) :=
  [.grant, .deframe [7] (by decide), .commitInbound, .needsAnnounce, .notifySend, .recv,
    .acknowledge, .ingest, .grant, .deframe [8, 9] (by decide), .commitInbound, .leaveLoop, .retain]

theorem lane_fifo_run : ∃ s, (laneMachine 4 2 false).Reachable Machine.always s ∧
    s.consumed = [[7]] ∧ s.lane.Conserved ∧ s.sent = s.consumed ++ s.lane.waiting := by
  have hrun : (((laneMachine 4 2 false).run (laneMachine 4 2 false).init laneRun).any
      fun s => s.consumed == [[7]]) = true := by
    decide
  obtain ⟨s, hs, hconsumed⟩ := Machine.exists_reachable_of_run hrun
  exact ⟨s, hs, by simpa using hconsumed, lane_fifo hs⟩

/-! ## No frame is stranded -/

/-- An announcement is on its way to the manifold or has made the lane ready, and a frame that
waits has one or will. -/
structure LaneState.Awake (s : LaneState cap) : Prop where
  announced : s.announced = true →
    0 < s.notify ∨ s.interface = .announcing ∨
      (s.ready = true ∧ (s.manifold = .selecting ∨ s.manifold = .collecting))
  draining : ∀ budget, s.manifold = .draining budget → s.ready = true
  waiting : s.lane.waiting ≠ [] →
    s.announced = true ∨ s.interface = .committed ∨ s.ready = true

theorem GrantLane.isSome_peeked_tryPeek {lane : GrantLane cap} (h : lane.waiting ≠ []) :
    lane.tryPeek.peeked.isSome = true := by
  have hhead := lane.peeked_tryPeek
  cases hpeeked : lane.tryPeek.peeked with
  | some slot =>
      rfl
  | none =>
      rw [hpeeked, Option.map_none, eq_comm, List.head?_eq_none_iff] at hhead
      exact absurd hhead h

/-- Past the acknowledgement, an announced lane has an announcement that is still on its way. -/
theorem LaneState.Awake.on_its_way {s : LaneState cap} (h : s.Awake) (hann : s.announced = true)
    (hpc : s.manifold ≠ .selecting ∧ s.manifold ≠ .collecting) :
    0 < s.notify ∨ s.interface = .announcing := by
  rcases h.announced hann with hnotify | hinterface | ⟨-, hselecting | hcollecting⟩
  · exact .inl hnotify
  · exact .inr hinterface
  · exact absurd hselecting hpc.1
  · exact absurd hcollecting hpc.2

theorem LaneState.Awake.step {s t : LaneState cap} {a : LaneAction cap} (h : s.Awake)
    (hstep : s.step a = some t) : t.Awake := by
  have hsent := h.on_its_way
  obtain ⟨hannounced, hdraining, hwaiting⟩ := h
  cases a with
  | grant =>
      simp only [LaneState.step, Option.ite_none_right_eq_some, Option.some.injEq] at hstep
      obtain ⟨-, rfl⟩ := hstep
      exact ⟨hannounced, hdraining, by simpa using hwaiting⟩
  | deframe bytes hbytes =>
      simp only [LaneState.step, Option.ite_none_right_eq_some, Option.some.injEq] at hstep
      obtain ⟨-, rfl⟩ := hstep
      exact ⟨hannounced, hdraining, by simpa using hwaiting⟩
  | commitInbound =>
      simp only [LaneState.step, Option.ite_none_right_eq_some] at hstep
      obtain ⟨hidle, hstep⟩ := hstep
      rw [hidle] at hannounced
      split at hstep
      · cases hstep
        exact ⟨by rwa [hidle], hdraining, hwaiting⟩
      · split at hstep
        · cases hstep
          exact ⟨by rwa [hidle], hdraining, hwaiting⟩
        · cases hstep
          refine ⟨fun hann => ?_, hdraining, fun _ => .inr (.inl rfl)⟩
          rcases hannounced hann with hnotify | hpc | hready
          · exact .inl hnotify
          · cases hpc
          · exact .inr (.inr hready)
  | needsAnnounce =>
      simp only [LaneState.step, Option.ite_none_right_eq_some, Option.some.injEq] at hstep
      obtain ⟨hpc, rfl⟩ := hstep
      refine ⟨fun _ => ?_, hdraining, fun _ => .inl rfl⟩
      -- the swap says yes unless an announcement is under way
      cases hann : s.announced with
      | false =>
          exact .inr (.inl (by simp))
      | true =>
          rcases hannounced hann with hnotify | hann' | hready
          · exact .inl hnotify
          · rw [hpc] at hann'
            cases hann'
          · exact .inr (.inr hready)
  | notifySend =>
      simp only [LaneState.step, Option.ite_none_right_eq_some, Option.some.injEq] at hstep
      obtain ⟨hpc, rfl⟩ := hstep
      refine ⟨fun _ => .inl (Nat.succ_pos _), hdraining, fun hne => ?_⟩
      rcases hwaiting hne with hann | hpc' | hready
      · exact .inl hann
      · rw [hpc] at hpc'
        cases hpc'
      · exact .inr (.inr hready)
  | recv =>
      simp only [LaneState.step, Option.ite_none_right_eq_some, Option.some.injEq] at hstep
      obtain ⟨-, rfl⟩ := hstep
      exact ⟨fun _ => .inr (.inr ⟨rfl, .inr rfl⟩), nofun, fun _ => .inr (.inr rfl)⟩
  | yieldNow =>
      simp only [LaneState.step, Option.ite_none_right_eq_some, Option.some.injEq] at hstep
      obtain ⟨⟨-, hready⟩, rfl⟩ := hstep
      exact ⟨fun _ => .inr (.inr ⟨hready, .inr rfl⟩), nofun, hwaiting⟩
  | otherLane =>
      simp only [LaneState.step, Option.ite_none_right_eq_some, Option.some.injEq] at hstep
      obtain ⟨-, rfl⟩ := hstep
      refine ⟨fun hann => ?_, nofun, hwaiting⟩
      rcases hannounced hann with hnotify | hpc | ⟨hready, -⟩
      · exact .inl hnotify
      · exact .inr (.inl hpc)
      · exact .inr (.inr ⟨hready, .inr rfl⟩)
  | attached =>
      simp only [LaneState.step, Option.ite_none_right_eq_some, Option.some.injEq] at hstep
      obtain ⟨hpc, rfl⟩ := hstep
      exact ⟨fun _ => .inr (.inr ⟨rfl, .inl hpc⟩), fun _ _ => rfl, fun _ => .inr (.inr rfl)⟩
  | tryRecv =>
      simp only [LaneState.step, Option.ite_none_right_eq_some, Option.some.injEq] at hstep
      obtain ⟨⟨hpc, -⟩, rfl⟩ := hstep
      exact ⟨fun _ => .inr (.inr ⟨rfl, .inr hpc⟩), fun _ _ => rfl, fun _ => .inr (.inr rfl)⟩
  | acknowledge =>
      simp only [LaneState.step, Option.ite_none_right_eq_some] at hstep
      obtain ⟨-, hstep⟩ := hstep
      split at hstep
      · next hready =>
          cases hstep
          exact ⟨nofun, fun _ _ => hready, fun _ => .inr (.inr hready)⟩
      · next hready =>
          cases hstep
          refine ⟨fun hann => ?_, nofun, hwaiting⟩
          rcases hannounced hann with hnotify | hpc | ⟨hready', -⟩
          · exact .inl hnotify
          · exact .inr (.inl hpc)
          · exact absurd hready' hready
  | ingest =>
      simp only [LaneState.step] at hstep
      split at hstep
      · next budget slot hmanifold hslot =>
          cases hstep
          have hready := hdraining _ hmanifold
          refine ⟨fun hann => ?_, fun _ _ => hready, fun _ => .inr (.inr hready)⟩
          exact (hsent hann (by simp [hmanifold])).imp id .inl
      · cases hstep
  | leaveLoop =>
      simp only [LaneState.step] at hstep
      split at hstep
      · next budget hmanifold =>
          cases hstep
          refine ⟨fun hann => ?_, nofun, hwaiting⟩
          exact (hsent hann (by simp [hmanifold])).imp id .inl
      · cases hstep
  | retain =>
      simp only [LaneState.step, Option.ite_none_right_eq_some] at hstep
      obtain ⟨hmanifold, hstep⟩ := hstep
      have hpc : s.manifold ≠ .selecting ∧ s.manifold ≠ .collecting := by simp [hmanifold]
      split at hstep
      · cases hstep
        refine ⟨fun hann => (hsent hann hpc).imp id .inl, nofun, fun hne => ?_⟩
        -- a lane that is not empty stays ready
        rw [GrantLane.waiting_tryPeek] at hne
        exact .inr (.inr (GrantLane.isSome_peeked_tryPeek hne))
      · cases hstep
        exact ⟨fun hann => (hsent hann hpc).imp id .inl, nofun, hwaiting⟩

/-! ## Draining -/

/-- The steps the two tasks take of their own accord: no new frame, and no help from the manifold's
other lanes. -/
def LaneAction.OwnStep : LaneAction cap → Prop
  | .needsAnnounce | .notifySend | .recv | .yieldNow | .tryRecv | .acknowledge | .ingest
  | .leaveLoop | .retain => True
  | .grant | .deframe _ _ | .commitInbound | .otherLane | .attached => False

variable {depth : ℕ} {attached : Bool}

/-- Steps of their own accord that take no frame. -/
structure Subsides (depth : ℕ) (attached : Bool) (s t : LaneState cap) : Prop where
  leads : (laneMachine cap depth attached).Leads (fun _ a => a.OwnStep) s t
  sent : t.sent = s.sent
  waiting : t.lane.waiting = s.lane.waiting

theorem Subsides.refl (s : LaneState cap) : Subsides depth attached s s :=
  ⟨.refl, rfl, rfl⟩

theorem Subsides.step {s t u : LaneState cap} (a : LaneAction cap) (ha : a.OwnStep)
    (hstep : s.step a = some t) (hsent : t.sent = s.sent)
    (hwaiting : t.lane.waiting = s.lane.waiting) (h : Subsides depth attached t u) :
    Subsides depth attached s u :=
  ⟨.trans (.tail .refl ha hstep) h.leads, h.sent.trans hsent, h.waiting.trans hwaiting⟩

/-- An announcement begun is sent. -/
theorem settles_idle (depth : ℕ) (attached : Bool) (s : LaneState cap) :
    ∃ t, Subsides depth attached s t ∧ t.interface = .idle := by
  have hsend : ∀ s : LaneState cap, s.interface = .announcing →
      ∃ t, Subsides depth attached s t ∧ t.interface = .idle := by
    intro s hs
    have hstep : s.step .notifySend = some { s with notify := s.notify + 1, interface := .idle } :=
      if_pos hs
    exact ⟨_, .step .notifySend trivial hstep rfl rfl (.refl _), rfl⟩
  cases hs : s.interface with
  | idle =>
      exact ⟨s, .refl s, hs⟩
  | announcing =>
      exact hsend s hs
  | committed =>
      have hstep : s.step .needsAnnounce = some
          { s with announced := true, interface := if s.announced then .idle else .announcing } :=
        if_pos hs
      cases hann : s.announced with
      | true =>
          exact ⟨_, .step .needsAnnounce trivial hstep rfl rfl (.refl _), by simp [hann]⟩
      | false =>
          obtain ⟨t, ht, hidle⟩ := hsend _ (by simp [hann] : LaneState.interface { s with
            announced := true, interface := if s.announced then .idle else .announcing } = _)
          exact ⟨t, .step .needsAnnounce trivial hstep rfl rfl ht, hidle⟩

/-- A pass begun comes to its end. -/
theorem settles_selecting (depth : ℕ) (attached : Bool) (s : LaneState cap) :
    ∃ t, Subsides depth attached s t ∧ t.manifold = .selecting ∧ t.interface = s.interface := by
  have hretain : ∀ s : LaneState cap, s.manifold = .retaining →
      ∃ t, Subsides depth attached s t ∧ t.manifold = .selecting ∧ t.interface = s.interface := by
    intro s hs
    cases hready : s.ready with
    | true =>
        have hstep : s.step .retain = some { s with
            lane := s.lane.tryPeek
            ready := s.lane.tryPeek.peeked.isSome
            manifold := .selecting } := by
          simp [LaneState.step, hs, hready]
        exact ⟨_, .step .retain trivial hstep rfl (s.lane.waiting_tryPeek) (.refl _), rfl, rfl⟩
    | false =>
        have hstep : s.step .retain = some { s with manifold := .selecting } := by
          simp [LaneState.step, hs, hready]
        exact ⟨_, .step .retain trivial hstep rfl rfl (.refl _), rfl, rfl⟩
  have hleave : ∀ (s : LaneState cap) (budget : ℕ), s.manifold = .draining budget →
      ∃ t, Subsides depth attached s t ∧ t.manifold = .selecting ∧ t.interface = s.interface := by
    intro s budget hs
    have hstep : s.step .leaveLoop = some { s with manifold := .retaining } := by
      simp [LaneState.step, hs]
    obtain ⟨t, ht, hend⟩ := hretain { s with manifold := .retaining } rfl
    exact ⟨t, .step .leaveLoop trivial hstep rfl rfl ht, hend⟩
  cases hs : s.manifold with
  | selecting =>
      exact ⟨s, .refl s, hs, rfl⟩
  | collecting =>
      cases hready : s.ready with
      | true =>
          have hstep : s.step .acknowledge =
              some { s with announced := false, manifold := .draining maxInboundBatch } := by
            simp [LaneState.step, hs, hready]
          obtain ⟨t, ht, hend⟩ := hleave _ maxInboundBatch
            (rfl : LaneState.manifold { s with
              announced := false, manifold := .draining maxInboundBatch } = _)
          exact ⟨t, .step .acknowledge trivial hstep rfl rfl ht, hend⟩
      | false =>
          have hstep : s.step .acknowledge = some { s with manifold := .retaining } := by
            simp [LaneState.step, hs, hready]
          obtain ⟨t, ht, hend⟩ := hretain { s with manifold := .retaining } rfl
          exact ⟨t, .step .acknowledge trivial hstep rfl rfl ht, hend⟩
  | draining budget =>
      exact hleave s budget hs
  | retaining =>
      exact hretain s hs

/-- While a frame waits, the select has an arm of this lane to take: its pass begins. -/
theorem settles_draining (depth : ℕ) (attached : Bool) {s : LaneState cap} (h : s.Awake) (hidle : s.interface = .idle)
    (hselecting : s.manifold = .selecting) (hne : s.lane.waiting ≠ []) :
    ∃ t, Subsides depth attached s t ∧ t.manifold = .draining maxInboundBatch := by
  have hacknowledge : ∀ s : LaneState cap, s.manifold = .collecting → s.ready = true →
      ∃ t, Subsides depth attached s t ∧ t.manifold = .draining maxInboundBatch := by
    intro s hs hready
    have hstep : s.step .acknowledge =
        some { s with announced := false, manifold := .draining maxInboundBatch } := by
      simp [LaneState.step, hs, hready]
    exact ⟨_, .step .acknowledge trivial hstep rfl rfl (.refl _), rfl⟩
  have harm : 0 < s.notify ∨ s.ready = true := by
    rcases h.waiting hne with hann | hcommitted | hready
    · rcases h.announced hann with hnotify | hannouncing | ⟨hready, -⟩
      · exact .inl hnotify
      · rw [hidle] at hannouncing
        cases hannouncing
      · exact .inr hready
    · rw [hidle] at hcommitted
      cases hcommitted
    · exact .inr hready
  rcases harm with hnotify | hready
  · have hstep : s.step .recv =
        some { s with notify := s.notify - 1, ready := true, manifold := .collecting } :=
      if_pos ⟨hselecting, hnotify⟩
    obtain ⟨t, ht, hend⟩ := hacknowledge
      { s with notify := s.notify - 1, ready := true, manifold := .collecting } rfl rfl
    exact ⟨t, .step .recv trivial hstep rfl rfl ht, hend⟩
  · have hstep : s.step .yieldNow = some { s with manifold := .collecting } :=
      if_pos ⟨hselecting, hready⟩
    obtain ⟨t, ht, hend⟩ := hacknowledge { s with manifold := .collecting } rfl hready
    exact ⟨t, .step .yieldNow trivial hstep rfl rfl ht, hend⟩

/-- In any state reached, the two tasks can empty the lane by themselves: no frame waits for a
wake-up that is never sent. -/
theorem lane_drains {s : LaneState cap}
    (h : (laneMachine cap depth attached).Reachable Machine.always s) :
    ∃ t, (laneMachine cap depth attached).Leads (fun _ a => a.OwnStep) s t ∧
      t.lane.waiting = [] ∧ t.consumed = s.sent := by
  have hinv : s.Fifo ∧ s.Awake := by
    refine Machine.Reachable.invariant (I := fun s => s.Fifo ∧ s.Awake)
      ⟨⟨GrantLane.conserved_new cap depth, rfl⟩, nofun, nofun, fun hne => absurd rfl hne⟩ ?_ h
    rintro s a t ⟨hfifo, hawake⟩ _ hstep
    exact ⟨hfifo.step hstep, hawake.step hstep⟩
  have hstep : ∀ s a t, s.Fifo ∧ s.Awake → LaneAction.OwnStep a →
      (laneMachine cap depth attached).step s a = some t → t.Fifo ∧ t.Awake :=
    fun _ _ _ hs _ hst => ⟨hs.1.step hst, hs.2.step hst⟩
  clear h
  -- each round takes one frame
  induction hn : s.lane.waiting.length generalizing s with
  | zero =>
      have hnil := List.length_eq_zero_iff.1 hn
      refine ⟨s, .refl, hnil, ?_⟩
      rw [hinv.1.sent_eq, hnil, List.append_nil]
  | succ n ih =>
      obtain ⟨t, hst, hidle⟩ := settles_idle depth attached s
      obtain ⟨u, htu, hselecting, hinterface⟩ := settles_selecting depth attached t
      have hu := Machine.Leads.invariant hstep hinv (hst.leads.trans htu.leads)
      have hwaiting : u.lane.waiting = s.lane.waiting := htu.waiting.trans hst.waiting
      have hne : u.lane.waiting ≠ [] := by
        rw [hwaiting, ← List.length_pos_iff, hn]
        exact Nat.succ_pos n
      obtain ⟨v, huv, hdraining⟩ := settles_draining depth attached hu.2 (hinterface.trans hidle) hselecting hne
      have hv := Machine.Leads.invariant hstep hu huv.leads
      rw [← huv.waiting] at hne
      obtain ⟨slot, hslot⟩ := Option.isSome_iff_exists.1 (GrantLane.isSome_peeked_tryPeek hne)
      have hingest : v.step .ingest = some { v with
          lane := v.lane.tryPeek.release
          manifold := .draining 63
          consumed := v.consumed ++ [slot.frame] } := by
        simp [LaneState.step, hdraining, maxInboundBatch, hslot]
      have hone := GrantLane.waiting_release (GrantLane.conserved_tryPeek hv.1.conserved) hslot
      rw [GrantLane.waiting_tryPeek, huv.waiting, hwaiting] at hone
      have hlen : v.lane.tryPeek.release.waiting.length = n := by
        rw [hone, List.length_cons] at hn
        omega
      obtain ⟨w, hleads, hempty, hconsumed⟩ := ih (hstep _ .ingest _ hv trivial hingest) hlen
      refine ⟨w, ?_, hempty, ?_⟩
      · exact ((hst.leads.trans htu.leads).trans huv.leads).trans
          ((Machine.Leads.tail (a := .ingest) .refl trivial hingest).trans hleads)
      · rw [hconsumed, huv.sent, htu.sent, hst.sent]

theorem lane_drains_run : ∃ s, (laneMachine 4 2 false).Reachable Machine.always s ∧
    s.sent = [[7], [8, 9]] ∧
    ∃ t, (laneMachine 4 2 false).Leads (fun _ a => a.OwnStep) s t ∧ t.lane.waiting = [] ∧
      t.consumed = s.sent := by
  have hrun : (((laneMachine 4 2 false).run (laneMachine 4 2 false).init laneRun).any
      fun s => s.sent == [[7], [8, 9]]) = true := by
    decide
  obtain ⟨s, hs, hsent⟩ := Machine.exists_reachable_of_run hrun
  exact ⟨s, hs, by simpa using hsent, lane_drains hs⟩

end Wire
end SvenBridge
