import SvenBridge.Wire.Channel
import SvenBridge.Wire.Dedup
import SvenBridge.Wire.LinkTable

/-!
# ChannelTable — which message is to be sent again

The growing table of channels (`channel/table/`): for each link the messages that were sent and not
acknowledged, each with the time at which it is sent again, and beside them the earliest of these
times, kept up to date by each change instead of looked up.  This file contains

* `HeapChannelTable` with its operations, where `none` is an index out of range or a loop that does
  not end;
* `Changes` — what a change does to the times of one channel — and `absorb_spec`: the kept time
  follows it;
* `WellFormed`, which every operation keeps, and `channel_timeouts_agree`: in every run the table
  answers what a walk over all messages answers.
-/

namespace SvenBridge
namespace Wire

open Lib

open Channel (ReceiveRow sequenceOf)

structure OutstandingSend where
  packetHash : PacketHash
  commandId : ℕ
  sequence : ChannelSequence
  messageType : MessageType
  body : List UInt8
  iv : TokenBlock
  sentAt : ℕ
  timeoutAt : ℕ
  tries : ℕ
  deriving DecidableEq

/-- One outstanding deadline changed. -/
inductive OutstandingTimeoutChange
  | pushed (new : ℕ)
  | rewritten (previous new : ℕ)
  | retired (retired : ℕ)

structure ChannelRow where
  linkId : LinkId
  received : ReceiveRow
  nextTxSequence : ChannelSequence
  outstanding : List OutstandingSend
  earliestTxTimeout : Option ℕ

namespace ChannelRow

def new (linkId : LinkId) : ChannelRow where
  linkId := linkId
  received := ⟨sequenceOf 0, []⟩
  nextTxSequence := sequenceOf 0
  outstanding := []
  earliestTxTimeout := none

def timeouts (row : ChannelRow) : List ℕ :=
  row.outstanding.map OutstandingSend.timeoutAt

end ChannelRow

instance : IndexRow ChannelRow LinkId where
  indexKey := ChannelRow.linkId

structure HeapChannelTable where
  rows : List ChannelRow
  index : HeapLemireIndex
  timeoutIndex : HeapDeadlineIndex

namespace HeapChannelTable

def default : HeapChannelTable where
  rows := []
  index := .default
  timeoutIndex := .default

/-- `deadlines.get(row).copied().flatten()` -/
def timeoutOf (rows : List ChannelRow) (slot : ℕ) : Option ℕ :=
  (rows[slot]?).bind ChannelRow.earliestTxTimeout

def indexOf (table : HeapChannelTable) (linkId : LinkId) : Option (Option ℕ) :=
  table.index.get linkId table.rows

/-- The row of a link, which is made where there is none. -/
def ensure (table : HeapChannelTable) (linkId : LinkId) : Option (HeapChannelTable × ℕ) := do
  match ← table.indexOf linkId with
  | some slot => return (table, slot)
  | none =>
      let slot := table.rows.length
      let rows := table.rows ++ [.new linkId]
      let index ← table.index.insert slot rows
      let timeoutIndex ← table.timeoutIndex.insert slot none (timeoutOf rows)
      return (⟨rows, index, timeoutIndex⟩, slot)

def close (table : HeapChannelTable) (linkId : LinkId) : Option HeapChannelTable := do
  match ← table.indexOf linkId with
  | none => return table
  | some slot =>
      let index ← table.index.swapRemoveSlot slot table.rows
      let timeoutIndex ←
        table.timeoutIndex.swapRemove slot (table.rows.length - 1) (timeoutOf table.rows)
      return ⟨Lib.swapRemove table.rows slot, index, timeoutIndex⟩

/-- A change of a row that neither index reads. -/
def modifyRow (table : HeapChannelTable) (slot : ℕ) (change : ChannelRow → ChannelRow) :
    HeapChannelTable :=
  { table with rows := table.rows.modify slot change }

/-- What `set_next_expected`, `push_buffered` and `swap_remove_buffered` change. -/
def setReceived (table : HeapChannelTable) (slot : ℕ) (received : ReceiveRow) : HeapChannelTable :=
  table.modifyRow slot fun row => { row with received := received }

def setNextTxSequence (table : HeapChannelTable) (slot : ℕ) (sequence : ChannelSequence) :
    HeapChannelTable :=
  table.modifyRow slot fun row => { row with nextTxSequence := sequence }

def setOutstanding (table : HeapChannelTable) (slot : ℕ) (outstanding : List OutstandingSend) :
    HeapChannelTable :=
  table.modifyRow slot fun row => { row with outstanding := outstanding }

def setChannelEarliestTxTimeout (table : HeapChannelTable) (slot : ℕ) (earliest : Option ℕ) :
    Option HeapChannelTable := do
  let rows := table.rows.modify slot fun row => { row with earliestTxTimeout := earliest }
  let timeoutIndex ← table.timeoutIndex.update slot earliest (timeoutOf rows)
  return ⟨rows, table.index, timeoutIndex⟩

def rescanChannelEarliestTxTimeout (table : HeapChannelTable) (slot : ℕ) :
    Option HeapChannelTable := do
  let row ← table.rows[slot]?
  table.setChannelEarliestTxTimeout slot row.timeouts.min?

def absorbOutstandingTimeoutChange (table : HeapChannelTable) (slot : ℕ)
    (change : OutstandingTimeoutChange) : Option HeapChannelTable := do
  let row ← table.rows[slot]?
  match change with
  | .pushed new =>
      if row.earliestTxTimeout.all fun current => decide (new < current) then
        table.setChannelEarliestTxTimeout slot (some new)
      else
        return table
  | .rewritten previous new =>
      match row.earliestTxTimeout with
      | some current =>
          if new ≤ current then
            table.setChannelEarliestTxTimeout slot (some new)
          else if previous = current then
            table.rescanChannelEarliestTxTimeout slot
          else
            return table
      | none => table.setChannelEarliestTxTimeout slot (some new)
  | .retired retired =>
      if row.earliestTxTimeout = some retired then
        table.rescanChannelEarliestTxTimeout slot
      else
        return table

def setOutstandingTries (table : HeapChannelTable) (slot sub tries : ℕ) :
    Option HeapChannelTable := do
  let row ← table.rows[slot]?
  return table.setOutstanding slot
    (row.outstanding.modify sub fun send => { send with tries := tries })

def setOutstandingTimeoutAt (table : HeapChannelTable) (slot sub timeoutAt : ℕ) :
    Option HeapChannelTable := do
  let row ← table.rows[slot]?
  let send ← row.outstanding[sub]?
  let table := table.setOutstanding slot
    (row.outstanding.modify sub fun send => { send with timeoutAt := timeoutAt })
  table.absorbOutstandingTimeoutChange slot (.rewritten send.timeoutAt timeoutAt)

/-- `push_outstanding`; a send starts without a try. -/
def pushOutstanding (table : HeapChannelTable) (slot : ℕ) (send : OutstandingSend) :
    Option HeapChannelTable := do
  let row ← table.rows[slot]?
  let table := table.setOutstanding slot (row.outstanding ++ [{ send with tries := 0 }])
  table.absorbOutstandingTimeoutChange slot (.pushed send.timeoutAt)

def retireOutstanding (table : HeapChannelTable) (slot sub : ℕ) : Option HeapChannelTable := do
  let row ← table.rows[slot]?
  let send ← row.outstanding[sub]?
  let table := table.setOutstanding slot (Lib.swapRemove row.outstanding sub)
  table.absorbOutstandingTimeoutChange slot (.retired send.timeoutAt)

/-- The full walk. -/
def scanEarliestTxTimeout (table : HeapChannelTable) : Option ℕ :=
  (table.rows.flatMap ChannelRow.timeouts).min?

def earliestTxTimeoutAt (table : HeapChannelTable) : Option ℕ :=
  table.timeoutIndex.eagerEarliestExact table.rows.length (timeoutOf table.rows)

def firstDueChannel (table : HeapChannelTable) (now : ℕ) : Option ℕ :=
  table.timeoutIndex.eagerFirstDue table.rows.length now (timeoutOf table.rows)

def nextDueChannel (table : HeapChannelTable) (now : ℕ) : Option (ℕ × ℕ) := do
  let slot ← table.firstDueChannel now
  let row ← table.rows[slot]?
  let sub ← row.outstanding.findIdx? fun send => decide (send.timeoutAt ≤ now)
  return (slot, sub)

end HeapChannelTable

/-! ## The times of one channel -/

/-- What a change does to the times of a channel, up to their order. -/
inductive Changes (times : List ℕ) : OutstandingTimeoutChange → List ℕ → Prop
  | pushed {times' : List ℕ} {new : ℕ} (hmem : ∀ t, t ∈ times' ↔ t = new ∨ t ∈ times) :
      Changes times (.pushed new) times'
  | rewritten {times' : List ℕ} {previous new : ℕ} (hold : previous ∈ times) (hnew : new ∈ times')
      (hsub : ∀ t ∈ times', t = new ∨ t ∈ times)
      (hkeep : ∀ t ∈ times, t ≠ previous → t ∈ times') :
      Changes times (.rewritten previous new) times'
  | retired {times' : List ℕ} {retired : ℕ} (hold : retired ∈ times)
      (hsub : ∀ t ∈ times', t ∈ times) (hkeep : ∀ t ∈ times, t ≠ retired → t ∈ times') :
      Changes times (.retired retired) times'

theorem min?_of_least {times : List ℕ} {least : ℕ} (hmem : least ∈ times)
    (hle : ∀ t ∈ times, least ≤ t) : times.min? = some least :=
  List.min?_eq_some_iff.2 ⟨hmem, hle⟩

theorem exists_min? {times : List ℕ} {t : ℕ} (h : t ∈ times) :
    ∃ least, times.min? = some least ∧ least ∈ times ∧ ∀ t ∈ times, least ≤ t := by
  cases hmin : times.min? with
  | none =>
      rw [List.min?_eq_none_iff.1 hmin] at h
      cases h
  | some least => exact ⟨least, rfl, List.min?_eq_some_iff.1 hmin⟩

namespace HeapChannelTable

/-! ## The invariant -/

theorem timeoutOf_eq (rows : List ChannelRow) :
    timeoutOf rows = HeapDeadlineIndex.rowDeadline ChannelRow.earliestTxTimeout rows := rfl

/-- Link ids are unique and both indexes agree with the rows. -/
structure Indexed (table : HeapChannelTable) : Prop where
  unique : (table.rows.map ChannelRow.linkId).Nodup
  indexed : table.index.Indexes table.rows
  timed : table.timeoutIndex.Sound table.rows.length (timeoutOf table.rows)

/-- Each channel's kept time is the earliest of its messages. -/
structure WellFormed (table : HeapChannelTable) : Prop extends Indexed table where
  cached : ∀ row ∈ table.rows, row.earliestTxTimeout = row.timeouts.min?

theorem wellFormed_default : WellFormed default where
  unique := List.nodup_nil
  indexed := HeapLemireIndex.indexes_default
  timed := HeapDeadlineIndex.sound_default
  cached _ hrow := absurd hrow List.not_mem_nil

theorem modify_of_fixed {rows : List ChannelRow} {slot : ℕ} {row : ChannelRow}
    (hrow : rows[slot]? = some row) {f : ChannelRow → ChannelRow} (hf : f row = row) :
    rows.modify slot f = rows := by
  apply List.ext_getElem?
  intro j
  rw [getElem?_modify]
  split
  · rename_i hj
    rw [← hj, hrow, Option.map_some, hf]
  · rfl

/-- A change that touches neither the link nor the kept time. -/
theorem Indexed.modifyRow {table : HeapChannelTable} (h : Indexed table) (slot : ℕ)
    {f : ChannelRow → ChannelRow} (hlink : ∀ row, (f row).linkId = row.linkId)
    (htime : ∀ row, (f row).earliestTxTimeout = row.earliestTxTimeout) :
    Indexed (table.modifyRow slot f) := by
  have hkeys : (table.modifyRow slot f).rows.map ChannelRow.linkId =
      table.rows.map ChannelRow.linkId := map_modify hlink
  refine ⟨?_, h.indexed.congr hkeys, HeapDeadlineIndex.Sound.modify ChannelRow.earliestTxTimeout h.timed htime⟩
  rw [hkeys]
  exact h.unique

theorem Indexed.setEarliest {table : HeapChannelTable} (h : Indexed table) {slot : ℕ}
    (hslot : slot < table.rows.length) (earliest : Option ℕ) :
    ∃ table', table.setChannelEarliestTxTimeout slot earliest = some table' ∧ Indexed table' ∧
      table'.rows = table.rows.modify slot fun row => { row with earliestTxTimeout := earliest } := by
  have hkeys : (table.rows.modify slot fun row => { row with earliestTxTimeout := earliest }).map
      ChannelRow.linkId = table.rows.map ChannelRow.linkId := map_modify fun _ => rfl
  have hunique := h.unique
  rw [← hkeys] at hunique
  have hset : ∀ row : ChannelRow,
      ChannelRow.earliestTxTimeout { row with earliestTxTimeout := earliest } = earliest :=
    fun _ => rfl
  obtain ⟨timeoutIndex, hupdate, hsound⟩ :=
    HeapDeadlineIndex.Sound.update ChannelRow.earliestTxTimeout h.timed hslot hset
  rw [← timeoutOf_eq] at hupdate hsound
  refine ⟨⟨table.rows.modify slot fun row => { row with earliestTxTimeout := earliest },
    table.index, timeoutIndex⟩, ?_, ⟨hunique, h.indexed.congr hkeys, hsound⟩, rfl⟩
  simp only [setChannelEarliestTxTimeout, hupdate, Option.bind_eq_bind, Option.bind_some]
  rfl

/-- The kept time follows a change of the times. -/
theorem Indexed.absorb_spec {table : HeapChannelTable} (h : Indexed table) {slot : ℕ}
    {row : ChannelRow} {times : List ℕ} {change : OutstandingTimeoutChange}
    (hrow : table.rows[slot]? = some row) (hcached : row.earliestTxTimeout = times.min?)
    (hchanges : Changes times change row.timeouts) :
    ∃ table', table.absorbOutstandingTimeoutChange slot change = some table' ∧ Indexed table' ∧
      table'.rows =
        table.rows.modify slot fun old => { old with earliestTxTimeout := row.timeouts.min? } := by
  have hslot : slot < table.rows.length := (List.getElem?_eq_some_iff.1 hrow).1
  have hset : ∀ {earliest : Option ℕ}, row.timeouts.min? = earliest →
      ∃ table', table.setChannelEarliestTxTimeout slot earliest = some table' ∧ Indexed table' ∧
        table'.rows =
          table.rows.modify slot fun old => { old with earliestTxTimeout := row.timeouts.min? } := by
    rintro _ rfl
    exact h.setEarliest hslot _
  have hrescan : ∃ table', table.rescanChannelEarliestTxTimeout slot = some table' ∧
      Indexed table' ∧ table'.rows =
        table.rows.modify slot fun old => { old with earliestTxTimeout := row.timeouts.min? } := by
    rw [rescanChannelEarliestTxTimeout, hrow]
    exact hset rfl
  have hsame : row.earliestTxTimeout = row.timeouts.min? → table.rows =
      table.rows.modify slot fun old => { old with earliestTxTimeout := row.timeouts.min? } := by
    intro heq
    refine (modify_of_fixed hrow ?_).symm
    rw [← heq]
  rw [absorbOutstandingTimeoutChange, hrow, Option.bind_eq_bind, Option.bind_some]
  cases hchanges with
  | @pushed _ new hmem =>
      simp only
      cases hearliest : row.earliestTxTimeout with
      | none =>
          rw [hcached] at hearliest
          have hempty := List.min?_eq_none_iff.1 hearliest
          refine hset (min?_of_least ((hmem new).2 (.inl rfl)) fun t ht => ?_)
          rcases (hmem t).1 ht with rfl | ht
          · exact Nat.le_refl _
          · rw [hempty] at ht
            cases ht
      | some current =>
          obtain ⟨hcurrent, hle⟩ := List.min?_eq_some_iff.1 (hcached.symm.trans hearliest)
          rw [Option.all_some]
          split
          · rename_i hlt
            have hlt : new < current := of_decide_eq_true hlt
            refine hset (min?_of_least ((hmem new).2 (.inl rfl)) fun t ht => ?_)
            rcases (hmem t).1 ht with rfl | ht
            · exact Nat.le_refl _
            · exact Nat.le_trans (Nat.le_of_lt hlt) (hle t ht)
          · rename_i hlt
            have hlt : ¬ new < current := fun hlt' => hlt (decide_eq_true hlt')
            refine ⟨table, rfl, h, hsame (hearliest.trans (min?_of_least ?_ fun t ht => ?_).symm)⟩
            · exact (hmem current).2 (.inr hcurrent)
            · rcases (hmem t).1 ht with rfl | ht
              · exact Nat.le_of_not_lt hlt
              · exact hle t ht
  | @rewritten _ previous new hold hnew hsub hkeep =>
      obtain ⟨current, hmin, hcurrent, hle⟩ := exists_min? hold
      have hearliest := hcached.trans hmin
      simp only [hearliest]
      split
      · rename_i hnear
        refine hset (min?_of_least hnew fun t ht => ?_)
        rcases hsub t ht with rfl | ht
        · exact Nat.le_refl _
        · exact Nat.le_trans hnear (hle t ht)
      · rename_i hfar
        split
        · exact hrescan
        · rename_i hother
          refine ⟨table, rfl, h, hsame (hearliest.trans (min?_of_least ?_ fun t ht => ?_).symm)⟩
          · exact hkeep current hcurrent (Ne.symm hother)
          · rcases hsub t ht with rfl | ht
            · exact Nat.le_of_not_le hfar
            · exact hle t ht
  | @retired _ retired hold hsub hkeep =>
      obtain ⟨current, hmin, hcurrent, hle⟩ := exists_min? hold
      have hearliest := hcached.trans hmin
      simp only [hearliest]
      split
      · exact hrescan
      · rename_i hother
        refine ⟨table, rfl, h, hsame (hearliest.trans (min?_of_least ?_ fun t ht => ?_).symm)⟩
        · exact hkeep current hcurrent fun heq => hother (congrArg some heq)
        · exact hle t (hsub t ht)

/-! ## Operations -/

/-- A changed row of a well-formed table, and the others. -/
theorem WellFormed.cached_modify {table : HeapChannelTable} (h : WellFormed table) {slot : ℕ}
    {row : ChannelRow} (hrow : table.rows[slot]? = some row) {f : ChannelRow → ChannelRow}
    (hf : (f row).earliestTxTimeout = (f row).timeouts.min?) :
    ∀ row' ∈ table.rows.modify slot f, row'.earliestTxTimeout = row'.timeouts.min? := by
  intro row' hrow'
  obtain ⟨j, hj⟩ := List.mem_iff_getElem?.1 hrow'
  rw [getElem?_modify] at hj
  split at hj
  · rename_i heq
    rw [← heq, hrow, Option.map_some, Option.some.injEq] at hj
    exact hj ▸ hf
  · exact h.cached row' (List.mem_of_getElem? hj)

/-- A change that leaves the times alone. -/
theorem WellFormed.modifyRow {table : HeapChannelTable} (h : WellFormed table) (slot : ℕ)
    {f : ChannelRow → ChannelRow} (hlink : ∀ row, (f row).linkId = row.linkId)
    (htime : ∀ row, (f row).earliestTxTimeout = row.earliestTxTimeout)
    (htimes : ∀ row, table.rows[slot]? = some row → (f row).timeouts = row.timeouts) :
    WellFormed (table.modifyRow slot f) := by
  refine ⟨h.toIndexed.modifyRow slot hlink htime, ?_⟩
  cases hrow : table.rows[slot]? with
  | some row =>
      refine h.cached_modify hrow ?_
      rw [htime, htimes row hrow]
      exact h.cached row (List.mem_of_getElem? hrow)
  | none =>
      intro row hmem
      obtain ⟨j, hj⟩ := List.mem_iff_getElem?.1 hmem
      rw [HeapChannelTable.modifyRow, getElem?_modify] at hj
      split at hj
      · rename_i heq
        rw [← heq, hrow] at hj
        cases hj
      · exact h.cached row (List.mem_of_getElem? hj)

/-- A change of the times of one channel, and of the time that is kept of them. -/
theorem WellFormed.changeOutstanding {table : HeapChannelTable} (h : WellFormed table) {slot : ℕ}
    {row : ChannelRow} (hrow : table.rows[slot]? = some row) {outstanding : List OutstandingSend}
    {change : OutstandingTimeoutChange}
    (hchanges : Changes row.timeouts change (outstanding.map OutstandingSend.timeoutAt)) :
    ∃ table', (table.setOutstanding slot outstanding).absorbOutstandingTimeoutChange slot change =
      some table' ∧ WellFormed table' := by
  have hindexed : Indexed (table.setOutstanding slot outstanding) :=
    h.toIndexed.modifyRow slot (fun _ => rfl) fun _ => rfl
  have hrow' : (table.setOutstanding slot outstanding).rows[slot]? =
      some { row with outstanding := outstanding } := by
    rw [setOutstanding, HeapChannelTable.modifyRow, getElem?_modify, if_pos rfl, hrow,
      Option.map_some]
  have hcached := h.cached row (List.mem_of_getElem? hrow)
  obtain ⟨table', habsorb, hindexed', hrows⟩ := hindexed.absorb_spec hrow' hcached hchanges
  refine ⟨table', habsorb, hindexed', ?_⟩
  rw [hrows]
  intro row' hmem
  obtain ⟨j, hj⟩ := List.mem_iff_getElem?.1 hmem
  rw [getElem?_modify] at hj
  split at hj
  · rename_i heq
    rw [← heq, hrow', Option.map_some, Option.some.injEq] at hj
    rw [← hj]
    rfl
  · rename_i hne
    rw [setOutstanding, HeapChannelTable.modifyRow, getElem?_modify, if_neg hne] at hj
    exact h.cached row' (List.mem_of_getElem? hj)

theorem mem_timeouts {sends : List OutstandingSend} {t : ℕ} :
    t ∈ sends.map OutstandingSend.timeoutAt ↔
      ∃ (sub : ℕ) (send : OutstandingSend), sends[sub]? = some send ∧ send.timeoutAt = t := by
  rw [List.mem_map]
  constructor
  · rintro ⟨send, hmem, ht⟩
    obtain ⟨sub, hsub⟩ := List.mem_iff_getElem?.1 hmem
    exact ⟨sub, send, hsub, ht⟩
  · rintro ⟨sub, send, hsub, ht⟩
    exact ⟨send, List.mem_of_getElem? hsub, ht⟩

theorem changes_rewritten {sends : List OutstandingSend} {sub : ℕ} {send : OutstandingSend}
    (hsend : sends[sub]? = some send) (timeoutAt : ℕ) :
    Changes (sends.map OutstandingSend.timeoutAt) (.rewritten send.timeoutAt timeoutAt)
      ((sends.modify sub fun send => { send with timeoutAt := timeoutAt }).map
        OutstandingSend.timeoutAt) := by
  refine .rewritten (mem_timeouts.2 ⟨sub, send, hsend, rfl⟩) (mem_timeouts.2 ?_) ?_ ?_
  · refine ⟨sub, { send with timeoutAt := timeoutAt }, ?_, rfl⟩
    rw [getElem?_modify, if_pos rfl, hsend, Option.map_some]
  · intro t ht
    obtain ⟨j, other, hj, rfl⟩ := mem_timeouts.1 ht
    rw [getElem?_modify] at hj
    split at hj
    · rename_i heq
      rw [← heq, hsend, Option.map_some, Option.some.injEq] at hj
      rw [← hj]
      exact .inl rfl
    · exact .inr (mem_timeouts.2 ⟨j, other, hj, rfl⟩)
  · intro t ht hne
    obtain ⟨j, other, hj, rfl⟩ := mem_timeouts.1 ht
    refine mem_timeouts.2 ⟨j, other, ?_, rfl⟩
    rw [getElem?_modify, if_neg, hj]
    intro heq
    rw [← heq, hsend, Option.some.injEq] at hj
    exact hne (hj ▸ rfl)

theorem changes_retired {sends : List OutstandingSend} {sub : ℕ} {send : OutstandingSend}
    (hsend : sends[sub]? = some send) :
    Changes (sends.map OutstandingSend.timeoutAt) (.retired send.timeoutAt)
      ((Lib.swapRemove sends sub).map OutstandingSend.timeoutAt) := by
  have hperm : ∀ t, t ∈ send.timeoutAt :: (Lib.swapRemove sends sub).map OutstandingSend.timeoutAt ↔
      t ∈ sends.map OutstandingSend.timeoutAt :=
    fun _ => ((swapRemove_perm hsend).map OutstandingSend.timeoutAt).mem_iff
  refine .retired ((hperm _).1 List.mem_cons_self)
    (fun t ht => (hperm t).1 (List.mem_cons_of_mem _ ht)) fun t ht hne => ?_
  exact (List.mem_cons.1 ((hperm t).2 ht)).resolve_left hne

theorem changes_pushed (sends : List OutstandingSend) (send : OutstandingSend) :
    Changes (sends.map OutstandingSend.timeoutAt) (.pushed send.timeoutAt)
      ((sends ++ [send]).map OutstandingSend.timeoutAt) := by
  refine .pushed fun t => ?_
  rw [List.map_append, List.mem_append, List.map_singleton, List.mem_singleton, or_comm]

theorem WellFormed.indexOf {table : HeapChannelTable} (h : WellFormed table) (linkId : LinkId) :
    table.indexOf linkId = some (HeapLemireIndex.scanRows linkId table.rows) :=
  h.indexed.get h.unique linkId

theorem WellFormed.ensure {table : HeapChannelTable} (h : WellFormed table) (linkId : LinkId)
    (hroom : table.rows.length < HeapLemireIndex.maxRows) :
    ∃ table' slot, table.ensure linkId = some (table', slot) ∧ WellFormed table' := by
  rw [HeapChannelTable.ensure, h.indexOf, Option.bind_eq_bind, Option.bind_some]
  cases hscan : HeapLemireIndex.scanRows linkId table.rows with
  | some slot => exact ⟨table, slot, rfl, h⟩
  | none =>
      rw [HeapLemireIndex.scanRows, List.findIdx?_eq_none_iff] at hscan
      have hnew : ∀ row ∈ table.rows, row.linkId ≠ linkId := by
        intro row hrow hid
        exact Bool.false_ne_true ((hscan row hrow).symm.trans (decide_eq_true hid))
      obtain ⟨index, hindex, hindexed⟩ := h.indexed.insert (ChannelRow.new linkId) hroom
      obtain ⟨timeoutIndex, htimeout, hsound⟩ := HeapDeadlineIndex.Sound.push
        ChannelRow.earliestTxTimeout h.timed (ChannelRow.new linkId) (Eq.refl none)
      rw [← timeoutOf_eq] at htimeout hsound
      refine ⟨⟨table.rows ++ [.new linkId], index, timeoutIndex⟩, table.rows.length, ?_,
        ⟨⟨nodup_concat h.unique hnew, hindexed, hsound⟩, ?_⟩⟩
      · simp only [hindex, htimeout, Option.bind_eq_bind, Option.bind_some]
        rfl
      · intro row hrow
        rcases List.mem_append.1 hrow with hrow | hrow
        · exact h.cached row hrow
        · rw [List.mem_singleton.1 hrow]
          rfl

theorem WellFormed.close {table : HeapChannelTable} (h : WellFormed table) (linkId : LinkId) :
    ∃ table', table.close linkId = some table' ∧ WellFormed table' := by
  rw [HeapChannelTable.close, h.indexOf, Option.bind_eq_bind, Option.bind_some]
  cases hscan : HeapLemireIndex.scanRows linkId table.rows with
  | none => exact ⟨table, rfl, h⟩
  | some slot =>
      rw [HeapLemireIndex.scanRows, List.findIdx?_eq_some_iff_getElem] at hscan
      obtain ⟨hslot, -⟩ := hscan
      obtain ⟨row, hrow⟩ : ∃ row, table.rows[slot]? = some row :=
        ⟨_, List.getElem?_eq_getElem hslot⟩
      obtain ⟨index, hindex, hindexed⟩ := h.indexed.swapRemove hslot
      obtain ⟨timeoutIndex, htimeout, hsound⟩ :=
        HeapDeadlineIndex.Sound.swapRemove ChannelRow.earliestTxTimeout h.timed hslot
      rw [← timeoutOf_eq] at htimeout hsound
      refine ⟨⟨Lib.swapRemove table.rows slot, index, timeoutIndex⟩, ?_,
        ⟨⟨nodup_swapRemove h.unique hslot, hindexed, hsound⟩, fun row' hrow' => ?_⟩⟩
      · simp only [hindex, htimeout, Option.bind_eq_bind, Option.bind_some]
        rfl
      · exact h.cached row' ((swapRemove_perm hrow).mem_iff.1 (List.mem_cons_of_mem _ hrow'))

/-! ## Runs -/

end HeapChannelTable

inductive ChannelTableOp
  | ensure (linkId : LinkId)
  | close (linkId : LinkId)
  | setReceived (slot : ℕ) (received : ReceiveRow)
  | setNextTxSequence (slot : ℕ) (sequence : ChannelSequence)
  | setOutstandingTries (slot sub tries : ℕ)
  | setOutstandingTimeoutAt (slot sub timeoutAt : ℕ)
  | pushOutstanding (slot : ℕ) (send : OutstandingSend)
  | retireOutstanding (slot sub : ℕ)

namespace HeapChannelTable

def runOp (table : HeapChannelTable) : ChannelTableOp → Option HeapChannelTable
  | .ensure linkId => (table.ensure linkId).map Prod.fst
  | .close linkId => table.close linkId
  | .setReceived slot received => some (table.setReceived slot received)
  | .setNextTxSequence slot sequence => some (table.setNextTxSequence slot sequence)
  | .setOutstandingTries slot sub tries => table.setOutstandingTries slot sub tries
  | .setOutstandingTimeoutAt slot sub timeoutAt => table.setOutstandingTimeoutAt slot sub timeoutAt
  | .pushOutstanding slot send => table.pushOutstanding slot send
  | .retireOutstanding slot sub => table.retireOutstanding slot sub

/-- Row numbers are `u32`, and an operation on a row or a message names one that there is. -/
def InRange (table : HeapChannelTable) : ChannelTableOp → Prop
  | .ensure _ => table.rows.length < HeapLemireIndex.maxRows
  | .close _ => True
  | .setReceived slot _ | .setNextTxSequence slot _ | .pushOutstanding slot _ =>
      (table.rows[slot]?).isSome = true
  | .setOutstandingTries slot sub _ | .setOutstandingTimeoutAt slot sub _
  | .retireOutstanding slot sub =>
      ((table.rows[slot]?).bind fun row => row.outstanding[sub]?).isSome = true

instance (table : HeapChannelTable) (op : ChannelTableOp) : Decidable (InRange table op) :=
  match op with
  | .ensure _ => inferInstanceAs (Decidable (_ < _))
  | .close _ => inferInstanceAs (Decidable True)
  | .setReceived _ _ | .setNextTxSequence _ _ | .pushOutstanding _ _
  | .setOutstandingTries _ _ _ | .setOutstandingTimeoutAt _ _ _ | .retireOutstanding _ _ =>
      inferInstanceAs (Decidable (_ = true))

def machine : Machine HeapChannelTable ChannelTableOp where
  init := .default
  step := runOp

theorem exists_send {table : HeapChannelTable} {slot sub : ℕ}
    (h : ((table.rows[slot]?).bind fun row => row.outstanding[sub]?).isSome = true) :
    ∃ row send, table.rows[slot]? = some row ∧ row.outstanding[sub]? = some send := by
  obtain ⟨send, hsend⟩ := Option.isSome_iff_exists.1 h
  obtain ⟨row, hrow, hsub⟩ := Option.bind_eq_some_iff.1 hsend
  exact ⟨row, send, hrow, hsub⟩

/-- Every operation in range ends and keeps the table well formed. -/
theorem WellFormed.run {table : HeapChannelTable} (h : WellFormed table) {op : ChannelTableOp}
    (hop : InRange table op) : ∃ table', table.runOp op = some table' ∧ WellFormed table' := by
  cases op with
  | ensure linkId =>
      obtain ⟨table', slot, hensure, hwell⟩ := h.ensure linkId hop
      exact ⟨table', by rw [runOp, hensure]; rfl, hwell⟩
  | close linkId => exact h.close linkId
  | setReceived slot received =>
      exact ⟨_, rfl, h.modifyRow slot (fun _ => rfl) (fun _ => rfl) fun _ _ => rfl⟩
  | setNextTxSequence slot sequence =>
      exact ⟨_, rfl, h.modifyRow slot (fun _ => rfl) (fun _ => rfl) fun _ _ => rfl⟩
  | setOutstandingTries slot sub tries =>
      obtain ⟨row, send, hrow, hsend⟩ := exists_send hop
      refine ⟨_, by rw [runOp, HeapChannelTable.setOutstandingTries, hrow]; rfl, ?_⟩
      refine h.modifyRow slot (fun _ => rfl) (fun _ => rfl) fun row' hrow' => ?_
      obtain rfl := Option.some.inj (hrow.symm.trans hrow')
      exact map_modify fun _ => rfl
  | setOutstandingTimeoutAt slot sub timeoutAt =>
      obtain ⟨row, send, hrow, hsend⟩ := exists_send hop
      obtain ⟨table', hrun, hwell⟩ :=
        h.changeOutstanding hrow (changes_rewritten hsend timeoutAt)
      refine ⟨table', ?_, hwell⟩
      rw [runOp, HeapChannelTable.setOutstandingTimeoutAt]
      simp only [hrow, hsend, Option.bind_eq_bind, Option.bind_some]
      exact hrun
  | pushOutstanding slot send =>
      obtain ⟨row, hrow⟩ := Option.isSome_iff_exists.1 (show (table.rows[slot]?).isSome = true from hop)
      obtain ⟨table', hrun, hwell⟩ := h.changeOutstanding hrow
        (changes_pushed row.outstanding { send with tries := 0 })
      refine ⟨table', ?_, hwell⟩
      rw [runOp, HeapChannelTable.pushOutstanding, hrow, Option.bind_eq_bind, Option.bind_some]
      exact hrun
  | retireOutstanding slot sub =>
      obtain ⟨row, send, hrow, hsend⟩ := exists_send hop
      obtain ⟨table', hrun, hwell⟩ := h.changeOutstanding hrow (changes_retired hsend)
      refine ⟨table', ?_, hwell⟩
      rw [runOp, HeapChannelTable.retireOutstanding]
      simp only [hrow, hsend, Option.bind_eq_bind, Option.bind_some]
      exact hrun

theorem wellFormed_of_reachable {table : HeapChannelTable} (h : machine.Reachable InRange table) :
    WellFormed table := by
  refine Machine.Reachable.invariant (I := WellFormed) wellFormed_default ?_ h
  intro table op next hwell hop hstep
  obtain ⟨table', hrun, hwell'⟩ := hwell.run hop
  rw [show machine.step table op = table.runOp op from rfl, hrun, Option.some.injEq] at hstep
  exact hstep ▸ hwell'

/-! ## What the table answers -/

/-- The earliest of the kept times is the earliest of all. -/
theorem WellFormed.min?_earliest {table : HeapChannelTable} (h : WellFormed table) :
    (table.rows.filterMap ChannelRow.earliestTxTimeout).min? = table.scanEarliestTxTimeout := by
  rw [scanEarliestTxTimeout]
  cases hscan : (table.rows.flatMap ChannelRow.timeouts).min? with
  | none =>
      rw [List.min?_eq_none_iff, List.flatMap_eq_nil_iff] at hscan
      rw [List.min?_eq_none_iff, List.filterMap_eq_nil_iff]
      intro row hrow
      rw [h.cached row hrow, hscan row hrow]
      rfl
  | some least =>
      obtain ⟨hmem, hle⟩ := List.min?_eq_some_iff.1 hscan
      obtain ⟨row, hrow, htime⟩ := List.mem_flatMap.1 hmem
      obtain ⟨first, hmin, hfirst, hfirstle⟩ := exists_min? htime
      have heq : first = least := Nat.le_antisymm (hfirstle least htime)
        (hle first (List.mem_flatMap.2 ⟨row, hrow, hfirst⟩))
      refine min?_of_least (List.mem_filterMap.2 ⟨row, hrow, ?_⟩) fun t ht => ?_
      · rw [h.cached row hrow, hmin, heq]
      · obtain ⟨row', hrow', ht'⟩ := List.mem_filterMap.1 ht
        rw [h.cached row' hrow'] at ht'
        exact hle t (List.mem_flatMap.2 ⟨row', hrow', (List.min?_eq_some_iff.1 ht').1⟩)

theorem WellFormed.earliestTxTimeoutAt {table : HeapChannelTable} (h : WellFormed table) :
    table.earliestTxTimeoutAt = table.scanEarliestTxTimeout := by
  rw [HeapChannelTable.earliestTxTimeoutAt, HeapDeadlineIndex.eagerEarliestExact_eq h.timed,
    ← h.min?_earliest]
  exact DeadlineColumn.scanEarliest_rows ChannelRow.earliestTxTimeout table.rows

/-- The search names a message that is due. -/
theorem nextDueChannel_due {table : HeapChannelTable} {now slot sub : ℕ}
    (hdue : table.nextDueChannel now = some (slot, sub)) :
    ∃ row send, table.rows[slot]? = some row ∧ row.outstanding[sub]? = some send ∧
      send.timeoutAt ≤ now := by
  rw [nextDueChannel] at hdue
  obtain ⟨slot', -, hdue⟩ := Option.bind_eq_some_iff.1 hdue
  obtain ⟨row, hrow, hdue⟩ := Option.bind_eq_some_iff.1 hdue
  obtain ⟨sub', hfind, hdue⟩ := Option.bind_eq_some_iff.1 hdue
  cases hdue
  obtain ⟨hsub, htime, -⟩ := List.findIdx?_eq_some_iff_getElem.1 hfind
  exact ⟨row, _, hrow, List.getElem?_eq_getElem hsub, of_decide_eq_true htime⟩

/-- It misses none. -/
theorem WellFormed.nextDueChannel_isSome {table : HeapChannelTable} (h : WellFormed table)
    {now : ℕ} {row : ChannelRow} {send : OutstandingSend} (hrow : row ∈ table.rows)
    (hsend : send ∈ row.outstanding) (hdue : send.timeoutAt ≤ now) :
    (table.nextDueChannel now).isSome = true := by
  have hanswers := HeapDeadlineIndex.eagerFirstDue_spec h.timed now
  obtain ⟨slot, hslot⟩ := List.mem_iff_getElem?.1 hrow
  obtain ⟨first, hmin, -, hle⟩ := exists_min? (List.mem_map.2 ⟨send, hsend, rfl⟩)
  have hfirst : HeapDeadlineIndex.isDue now (timeoutOf table.rows) slot = true := by
    rw [HeapDeadlineIndex.isDue_iff, timeoutOf, hslot, Option.bind_some, h.cached row hrow]
    exact ⟨first, hmin, Nat.le_trans (hle _ (List.mem_map.2 ⟨send, hsend, rfl⟩)) hdue⟩
  have hfound := hanswers.found slot ⟨(List.getElem?_eq_some_iff.1 hslot).1, hfirst, rfl⟩
  obtain ⟨slot', hslot'⟩ := Option.isSome_iff_exists.1 hfound
  obtain ⟨hlt, hdue', -⟩ := hanswers.wanted slot' hslot'
  obtain ⟨row', hrow'⟩ : ∃ row', table.rows[slot']? = some row' :=
    ⟨_, List.getElem?_eq_getElem hlt⟩
  rw [HeapDeadlineIndex.isDue_iff, timeoutOf, hrow', Option.bind_some,
    h.cached row' (List.mem_of_getElem? hrow')] at hdue'
  obtain ⟨time, htime, hnow⟩ := hdue'
  obtain ⟨other, hother, rfl⟩ := List.mem_map.1 (List.min?_eq_some_iff.1 htime).1
  cases hfind : row'.outstanding.findIdx? fun send => decide (send.timeoutAt ≤ now) with
  | none =>
      have hnot := List.findIdx?_eq_none_iff.1 hfind other hother
      rw [decide_eq_false_iff_not] at hnot
      exact absurd hnow hnot
  | some sub =>
      rw [nextDueChannel, firstDueChannel, hslot']
      simp only [hrow', hfind, Option.bind_eq_bind, Option.bind_some]
      rfl

/-- After every run of operations in range, every further one ends; the earliest time that is kept is
the one a walk over all messages finds, and the search for a message that is due finds one exactly
when there is one. -/
theorem channel_timeouts_agree {table : HeapChannelTable} (h : machine.Reachable InRange table) :
    (∀ op, InRange table op → (table.runOp op).isSome = true) ∧
      table.earliestTxTimeoutAt = table.scanEarliestTxTimeout ∧
      ∀ now,
        (∀ slot sub, table.nextDueChannel now = some (slot, sub) →
          ∃ row send, table.rows[slot]? = some row ∧ row.outstanding[sub]? = some send ∧
            send.timeoutAt ≤ now) ∧
        (table.nextDueChannel now = none →
          ∀ row ∈ table.rows, ∀ send ∈ row.outstanding, now < send.timeoutAt) := by
  have hwell := wellFormed_of_reachable h
  refine ⟨fun op hop => ?_, hwell.earliestTxTimeoutAt, fun now => ⟨?_, ?_⟩⟩
  · obtain ⟨table', hrun, -⟩ := hwell.run hop
    rw [hrun]
    rfl
  · exact fun slot sub => nextDueChannel_due
  · intro hnone row hrow send hsend
    refine Nat.lt_of_not_le fun hdue => ?_
    have hsome := hwell.nextDueChannel_isSome hrow hsend hdue
    rw [hnone] at hsome
    cases hsome

/-- The earliest message of the second channel is put off, and that of the first acknowledged. -/
theorem channel_timeouts_agree_run :
    ∃ table : HeapChannelTable, table.rows.length = 2 ∧ table.earliestTxTimeoutAt = some 2000 ∧
      (table.nextDueChannel 1999 = none →
        ∀ row ∈ table.rows, ∀ send ∈ row.outstanding, 1999 < send.timeoutAt) := by
  let linkId : UInt8 → LinkId := fun byte => List.Vector.replicate 16 byte
  let send : ℕ → OutstandingSend := fun timeoutAt =>
    ⟨List.Vector.replicate 32 0, 7, 0, 1, [2], List.Vector.replicate 16 3, 100, timeoutAt, 0⟩
  have hrun : (machine.runWhile InRange machine.init
      [.ensure (linkId 1), .ensure (linkId 2), .pushOutstanding 0 (send 1500),
        .pushOutstanding 0 (send 2000), .pushOutstanding 1 (send 1000),
        .setOutstandingTimeoutAt 1 0 4000, .setOutstandingTries 1 0 1, .retireOutstanding 0 0]).any
      (fun table => decide (table.rows.length = 2 ∧ table.scanEarliestTxTimeout = some 2000)) =
      true := by decide
  obtain ⟨table, h, htable⟩ := Machine.exists_reachable_of_runWhile hrun
  obtain ⟨hrows, hscan⟩ := of_decide_eq_true htable
  obtain ⟨-, hearliest, hdue⟩ := channel_timeouts_agree h
  exact ⟨table, hrows, hearliest.trans hscan, (hdue 1999).2⟩

end HeapChannelTable

end Wire
end SvenBridge
