import SvenBridge.Wire.DeadlineIndex
import SvenBridge.Wire.LemireIndex
import SvenBridge.Wire.Link

/-!
# LinkTable — the rows a node keeps of its links

What a node holds of a link from its request to its end (`routing/links/table/`): rows in a growing
table, found through the side index, each with a phase and a deadline.  What a row keeps of its
route (`route_evidence`) and of resource transfers is left out: no deadline and no lookup depends on
it.  This file contains

* the times of a link (`routing/links/maintenance.rs`) and `LinkPhase`;
* `HeapLinkTable`, its columns kept as one list of rows beside their two indexes;
* `WellFormed` — link ids are unique and both indexes agree with the rows — and for each operation
  what it does to the rows, that it ends, and that it keeps the table well formed.
-/

namespace SvenBridge
namespace Wire

open Lib

/-! ## Time -/

/-- `saturating_add` of `u64`. -/
def satAdd (a b : ℕ) : ℕ := min (a + b) (2 ^ 64 - 1)

/-- `saturating_mul` of `u64`. -/
def satMul (a b : ℕ) : ℕ := min (a * b) (2 ^ 64 - 1)

def keepaliveMaxMs : ℕ := 360000
def keepaliveMaxRttMs : ℕ := 1750
def keepaliveMinMs : ℕ := 5000
def staleFactor : ℕ := 2
def keepaliveTimeoutFactor : ℕ := 4
def staleGraceMs : ℕ := 5000

def keepaliveMsFrom (rtt : ℕ) : ℕ :=
  min (max (satMul rtt keepaliveMaxMs / keepaliveMaxRttMs) keepaliveMinMs) keepaliveMaxMs

def staleMsFrom (keepaliveMs : ℕ) : ℕ := satMul keepaliveMs staleFactor

def timeoutGraceMsFrom (rtt : ℕ) : ℕ := satAdd (satMul rtt keepaliveTimeoutFactor) staleGraceMs

def teardownAt (lastInbound keepaliveMs rtt : ℕ) : ℕ :=
  satAdd (satAdd lastInbound (staleMsFrom keepaliveMs)) (timeoutGraceMsFrom rtt)

/-! ## Phases -/

abbrev InterfaceId := List.Vector UInt8 8

inductive ProofStrategy
  | proveNone
  | proveAll
  | proveIf
  deriving DecidableEq

inductive LinkRole
  | initiator (linkSigning : Ed25519SecretKey)
  | responder (destination : DestinationHash) (identity : IdentityHash)
      (proofStrategy : ProofStrategy)
  deriving DecidableEq

/-- An initiator's establishment. -/
structure PendingLink where
  destination : DestinationHash
  expectedHops : UInt8
  mode : LinkMode
  initiatorSecret : X25519SecretKey
  linkSigning : Ed25519SecretKey
  requestedAt : ℕ
  commandId : ℕ
  deriving DecidableEq

/-- A responder's handshake, awaiting an RTT. -/
structure HandshakeLink where
  key : LinkKey
  requestedAt : ℕ
  mtu : ℕ
  initiatorSigning : Ed25519PublicKey
  destination : DestinationHash
  identity : IdentityHash
  proofStrategy : ProofStrategy
  deriving DecidableEq

structure ActiveLink where
  key : LinkKey
  role : LinkRole
  rtt : ℕ
  mtu : ℕ
  attachedInterface : InterfaceId
  lastInbound : ℕ
  lastOutbound : ℕ
  lastKeepaliveSent : ℕ
  keepaliveMs : ℕ
  peerSigning : Ed25519PublicKey
  remoteIdentity : Option IdentityHash
  deriving DecidableEq

inductive LinkPhase
  | pending (link : PendingLink)
  | handshake (link : HandshakeLink)
  | active (link : ActiveLink)
  deriving DecidableEq

namespace ActiveLink

def teardownAt (link : ActiveLink) : ℕ :=
  Wire.teardownAt link.lastInbound link.keepaliveMs link.rtt

def staleAt (link : ActiveLink) : ℕ :=
  satAdd link.lastInbound (staleMsFrom link.keepaliveMs)

/-- When an initiator owes its next keepalive. -/
def sendAt (link : ActiveLink) : ℕ :=
  satAdd (max (min link.lastInbound link.lastOutbound) link.lastKeepaliveSent) link.keepaliveMs

def isInitiator (link : ActiveLink) : Bool :=
  match link.role with
  | .initiator _ => true
  | .responder _ _ _ => false

/-- `active_deadline`. -/
def deadline (link : ActiveLink) : ℕ :=
  match link.role with
  | .responder _ _ _ => link.teardownAt
  | .initiator _ => if link.sendAt ≤ link.staleAt then link.sendAt else link.teardownAt

theorem deadline_of_initiator {link : ActiveLink} (h : link.isInitiator = true) :
    link.deadline = if link.sendAt ≤ link.staleAt then link.sendAt else link.teardownAt := by
  rw [isInitiator] at h
  rw [deadline]
  split
  · rename_i hrole
    rw [hrole] at h
    cases h
  · rfl

/-- The next deadline of a session is not after its end. -/
theorem deadline_le_teardownAt (link : ActiveLink) : link.deadline ≤ link.teardownAt := by
  have hstale : link.staleAt ≤ link.teardownAt := by
    rw [staleAt, ActiveLink.teardownAt, Wire.teardownAt]
    simp only [satAdd]
    omega
  rw [deadline]
  split
  · exact le_refl _
  · split
    · rename_i hsend
      exact le_trans hsend hstale
    · exact le_refl _

end ActiveLink

/-! ## The table -/

structure LinkRow where
  linkId : LinkId
  timeoutAt : Option ℕ
  phase : LinkPhase
  deriving DecidableEq

def LinkRow.DueAt (row : LinkRow) (now : ℕ) : Prop :=
  ∃ time, row.timeoutAt = some time ∧ time ≤ now

/-- `lemire_key_from_prefix`, big-endian. -/
def lemireKeyFromPrefix (bytes : List UInt8) : UInt64 :=
  (bytes.take 8).foldl (fun key byte => key * 256 + byte.toUInt64) 0

instance : IndexKey LinkId where
  lemireKey id := lemireKeyFromPrefix id.toList

instance : IndexRow LinkRow LinkId where
  indexKey := LinkRow.linkId

structure HeapLinkTable where
  rows : List LinkRow
  index : HeapLemireIndex
  timeoutIndex : HeapDeadlineIndex

namespace HeapLinkTable

def default : HeapLinkTable where
  rows := []
  index := .default
  timeoutIndex := .default

/-- `timeout_ats.get(row).copied().flatten()` -/
def timeoutOf (rows : List LinkRow) (slot : ℕ) : Option ℕ :=
  (rows[slot]?).bind LinkRow.timeoutAt

def indexOf (table : HeapLinkTable) (linkId : LinkId) : Option (Option ℕ) :=
  table.index.get linkId table.rows

/-- The change of a phase through `phase_mut`; no index reads it. -/
def setPhase (table : HeapLinkTable) (slot : ℕ) (phase : LinkPhase) : HeapLinkTable :=
  { table with rows := table.rows.modify slot fun row => { row with phase := phase } }

def setTimeoutAt (table : HeapLinkTable) (slot : ℕ) (timeoutAt : Option ℕ) :
    Option HeapLinkTable := do
  let rows := table.rows.modify slot fun row => { row with timeoutAt := timeoutAt }
  let timeoutIndex ← table.timeoutIndex.update slot timeoutAt (timeoutOf rows)
  return ⟨rows, table.index, timeoutIndex⟩

def earliestIndexedTimeout (table : HeapLinkTable) : Option (HeapLinkTable × Option ℕ) := do
  let (timeoutIndex, earliest) ←
    table.timeoutIndex.earliestExact table.rows.length (timeoutOf table.rows)
  return ({ table with timeoutIndex := timeoutIndex }, earliest)

/-- The predicate of `first_due_timeout_matching` on the row in a slot. -/
def slotMatches (rows : List LinkRow) (predicate : LinkPhase → Bool) (slot : ℕ) : Bool :=
  (rows[slot]?).any fun row => predicate row.phase

def firstDueTimeoutMatching (table : HeapLinkTable) (now : ℕ) (predicate : LinkPhase → Bool) :
    Option (HeapLinkTable × Option ℕ) := do
  let (timeoutIndex, found) ← table.timeoutIndex.firstDueMatching table.rows.length now
    (timeoutOf table.rows) (slotMatches table.rows predicate)
  return ({ table with timeoutIndex := timeoutIndex }, found)

def push (table : HeapLinkTable) (linkId : LinkId) (phase : LinkPhase) (timeoutAt : Option ℕ) :
    Option HeapLinkTable := do
  let slot := table.rows.length
  let rows := table.rows ++ [⟨linkId, timeoutAt, phase⟩]
  let index ← table.index.insert slot rows
  let timeoutIndex ← table.timeoutIndex.insert slot timeoutAt (timeoutOf rows)
  return ⟨rows, index, timeoutIndex⟩

def swapRemove (table : HeapLinkTable) (slot : ℕ) : Option HeapLinkTable :=
  if slot ≥ table.rows.length then
    some table
  else do
    let index ← table.index.swapRemoveSlot slot table.rows
    let timeoutIndex ←
      table.timeoutIndex.swapRemove slot (table.rows.length - 1) (timeoutOf table.rows)
    return ⟨Lib.swapRemove table.rows slot, index, timeoutIndex⟩

theorem timeoutOf_eq (rows : List LinkRow) :
    timeoutOf rows = HeapDeadlineIndex.rowDeadline LinkRow.timeoutAt rows := rfl

/-! ## The invariant -/

structure WellFormed (table : HeapLinkTable) : Prop where
  unique : (table.rows.map LinkRow.linkId).Nodup
  indexed : table.index.Indexes table.rows
  timed : table.timeoutIndex.Sound table.rows.length (timeoutOf table.rows)

theorem wellFormed_default : WellFormed default :=
  ⟨List.nodup_nil, HeapLemireIndex.indexes_default, HeapDeadlineIndex.sound_default⟩

/-- The index finds what the linear search of `LinkTable::index_of` finds. -/
theorem WellFormed.indexOf {table : HeapLinkTable} (h : WellFormed table) (linkId : LinkId) :
    table.indexOf linkId = some (HeapLemireIndex.scanRows linkId table.rows) :=
  h.indexed.get h.unique linkId

theorem WellFormed.push {table : HeapLinkTable} (h : WellFormed table) {linkId : LinkId}
    {phase : LinkPhase} {timeoutAt : Option ℕ} (hnew : ∀ row ∈ table.rows, row.linkId ≠ linkId)
    (hroom : table.rows.length < HeapLemireIndex.maxRows) :
    ∃ table', table.push linkId phase timeoutAt = some table' ∧
      table'.rows = table.rows ++ [⟨linkId, timeoutAt, phase⟩] ∧ WellFormed table' := by
  obtain ⟨index, hindex, hindexed⟩ :=
    h.indexed.insert (⟨linkId, timeoutAt, phase⟩ : LinkRow) hroom
  obtain ⟨timeoutIndex, htimeout, hsound⟩ := HeapDeadlineIndex.Sound.push LinkRow.timeoutAt h.timed
    (⟨linkId, timeoutAt, phase⟩ : LinkRow) (Eq.refl timeoutAt)
  rw [← timeoutOf_eq] at htimeout hsound
  refine ⟨⟨table.rows ++ [⟨linkId, timeoutAt, phase⟩], index, timeoutIndex⟩, ?_, rfl,
    nodup_concat h.unique hnew, hindexed, hsound⟩
  simp only [HeapLinkTable.push, hindex, htimeout, Option.bind_eq_bind, Option.bind_some]
  rfl

theorem isDue_timeoutOf {rows : List LinkRow} {now slot : ℕ} {row : LinkRow}
    (h : rows[slot]? = some row) :
    HeapDeadlineIndex.isDue now (timeoutOf rows) slot = true ↔ row.DueAt now := by
  rw [HeapDeadlineIndex.isDue_iff, timeoutOf, h]
  exact Iff.rfl

theorem scanEarliest_rows (rows : List LinkRow) :
    HeapDeadlineIndex.scanEarliest rows.length (timeoutOf rows) =
      (rows.filterMap LinkRow.timeoutAt).min? :=
  DeadlineColumn.scanEarliest_rows LinkRow.timeoutAt rows

theorem WellFormed.setPhase {table : HeapLinkTable} (h : WellFormed table) (slot : ℕ)
    (phase : LinkPhase) : WellFormed (table.setPhase slot phase) := by
  have hkeys : (table.setPhase slot phase).rows.map LinkRow.linkId = table.rows.map LinkRow.linkId :=
    map_modify fun _ => rfl
  refine ⟨?_, h.indexed.congr hkeys, HeapDeadlineIndex.Sound.modify LinkRow.timeoutAt h.timed fun _ => rfl⟩
  rw [hkeys]
  exact h.unique

theorem WellFormed.setTimeoutAt {table : HeapLinkTable} (h : WellFormed table) {slot : ℕ}
    (hslot : slot < table.rows.length) (timeoutAt : Option ℕ) :
    ∃ table', table.setTimeoutAt slot timeoutAt = some table' ∧
      table'.rows = table.rows.modify slot (fun row => { row with timeoutAt := timeoutAt }) ∧
      WellFormed table' := by
  have hkeys : (table.rows.modify slot fun row => { row with timeoutAt := timeoutAt }).map
      LinkRow.linkId = table.rows.map LinkRow.linkId := map_modify fun _ => rfl
  have hunique := h.unique
  rw [← hkeys] at hunique
  have hset : ∀ row : LinkRow, LinkRow.timeoutAt { row with timeoutAt := timeoutAt } = timeoutAt :=
    fun _ => rfl
  obtain ⟨timeoutIndex, hupdate, hsound⟩ :=
    HeapDeadlineIndex.Sound.update LinkRow.timeoutAt h.timed hslot hset
  rw [← timeoutOf_eq] at hupdate hsound
  refine ⟨⟨table.rows.modify slot fun row => { row with timeoutAt := timeoutAt }, table.index,
    timeoutIndex⟩, ?_, rfl, hunique, h.indexed.congr hkeys, hsound⟩
  simp only [HeapLinkTable.setTimeoutAt, hupdate, Option.bind_eq_bind, Option.bind_some]
  rfl

theorem WellFormed.earliestIndexedTimeout {table : HeapLinkTable} (h : WellFormed table) :
    ∃ table', table.earliestIndexedTimeout =
        some (table', (table.rows.filterMap LinkRow.timeoutAt).min?) ∧
      table'.rows = table.rows ∧ WellFormed table' := by
  obtain ⟨timeoutIndex, hrun, hsound⟩ := HeapDeadlineIndex.earliestExact_spec h.timed
  rw [scanEarliest_rows] at hrun
  refine ⟨{ table with timeoutIndex := timeoutIndex }, ?_, rfl, h.unique, h.indexed, hsound⟩
  simp only [HeapLinkTable.earliestIndexedTimeout, hrun, Option.bind_eq_bind, Option.bind_some]
  rfl

/-- The answer names a due row whose phase is as asked for, and there is one when there is such a
row. -/
theorem WellFormed.firstDueTimeoutMatching {table : HeapLinkTable} (h : WellFormed table) (now : ℕ)
    (predicate : LinkPhase → Bool) :
    ∃ table' found, table.firstDueTimeoutMatching now predicate = some (table', found) ∧
      table'.rows = table.rows ∧ WellFormed table' ∧
      (∀ slot, found = some slot → ∃ row, table.rows[slot]? = some row ∧ row.DueAt now ∧
        predicate row.phase = true) ∧
      (found = none → ∀ row ∈ table.rows, row.DueAt now → predicate row.phase = false) := by
  obtain ⟨timeoutIndex, found, hrun, hanswers, hsound⟩ :=
    HeapDeadlineIndex.firstDueMatching_spec h.timed now (slotMatches table.rows predicate)
  refine ⟨{ table with timeoutIndex := timeoutIndex }, found, ?_, rfl,
    ⟨h.unique, h.indexed, hsound⟩, ?_, ?_⟩
  · simp only [HeapLinkTable.firstDueTimeoutMatching, hrun, Option.bind_eq_bind, Option.bind_some]
    rfl
  · intro slot hslot
    obtain ⟨hlt, hdue, hmatches⟩ := hanswers.wanted slot hslot
    obtain ⟨entry, hrow⟩ : ∃ entry, table.rows[slot]? = some entry :=
      ⟨_, List.getElem?_eq_getElem hlt⟩
    rw [slotMatches, hrow, Option.any_some] at hmatches
    exact ⟨_, hrow, (isDue_timeoutOf hrow).1 hdue, hmatches⟩
  · intro hnone row hmem hdue
    obtain ⟨slot, hrow⟩ := List.mem_iff_getElem?.1 hmem
    rw [← Bool.not_eq_true]
    intro hpredicate
    have hfound := hanswers.found slot ⟨(List.getElem?_eq_some_iff.1 hrow).1,
      (isDue_timeoutOf hrow).2 hdue, by rw [slotMatches, hrow]; exact hpredicate⟩
    rw [hnone] at hfound
    cases hfound

theorem WellFormed.swapRemove {table : HeapLinkTable} (h : WellFormed table) {slot : ℕ}
    (hslot : slot < table.rows.length) :
    ∃ table', table.swapRemove slot = some table' ∧
      table'.rows = Lib.swapRemove table.rows slot ∧ WellFormed table' := by
  obtain ⟨index, hindex, hindexed⟩ := h.indexed.swapRemove hslot
  obtain ⟨timeoutIndex, htimeout, hsound⟩ :=
    HeapDeadlineIndex.Sound.swapRemove LinkRow.timeoutAt h.timed hslot
  rw [← timeoutOf_eq] at htimeout hsound
  refine ⟨⟨Lib.swapRemove table.rows slot, index, timeoutIndex⟩, ?_, rfl,
    nodup_swapRemove h.unique hslot, hindexed, hsound⟩
  rw [HeapLinkTable.swapRemove, if_neg (Nat.not_le.2 hslot)]
  simp only [hindex, htimeout, Option.bind_eq_bind, Option.bind_some]
  rfl

end HeapLinkTable

end Wire
end SvenBridge
