import SvenBridge.Wire.LinkTable
import Mathlib.Order.Bounds.Basic
import Mathlib.Logic.Function.Basic

/-!
# Links — the link table with its timers

`Links` of `routing/links/table/core.rs`, over the growing table.  This file contains

* `Links` with its operations, where `none` is an index out of range or a loop that does not end;
* `Moves` — what each operation is for, told on a map from link ids to rows;
* `Coherent` — the table is well formed, each row has the deadline of its phase, and
  `earliestTimeout` is the earliest of them — which every operation keeps;
* `links_refine`: in every run `Links` is such a map, and answers as the map does.
-/

namespace SvenBridge
namespace Wire

open Lib

open HeapLinkTable (WellFormed)

structure InitiatedLink where
  linkId : LinkId
  pending : PendingLink
  timeoutAt : ℕ

structure RespondingLink where
  linkId : LinkId
  handshake : HandshakeLink
  timeoutAt : ℕ

/-- `TableFull` is of the tables of a fixed size. -/
inductive TrackLinkError
  | tableFull
  | alreadyTracked
  deriving DecidableEq

inductive LinkActivationError
  | unknownLink
  | wrongPhase
  deriving DecidableEq

structure LinkActivation where
  receivedHops : UInt8
  rtt : ℕ
  mtu : ℕ
  attachedInterface : InterfaceId
  peerSigning : Ed25519PublicKey

inductive OverdueLink
  | initiated (linkId : LinkId) (commandId : ℕ) (destination : DestinationHash) (requestedAt : ℕ)
  | responding (linkId : LinkId)
  deriving DecidableEq

structure DueKeepalive where
  linkId : LinkId
  attachedInterface : InterfaceId
  deriving DecidableEq

structure Links where
  table : HeapLinkTable
  earliestTimeout : Option ℕ

namespace Links

def default : Links where
  table := .default
  earliestTimeout := none

def refreshEarliestTimeout (links : Links) : Option Links := do
  let (table, earliestTimeout) ← links.table.earliestIndexedTimeout
  return ⟨table, earliestTimeout⟩

def phaseFor (links : Links) (linkId : LinkId) : Option (Option LinkPhase) := do
  let slot ← links.table.indexOf linkId
  return slot.bind fun slot => (links.table.rows[slot]?).map LinkRow.phase

/-- The push that both `track_initiated` and `track_responding` end in. -/
def track (links : Links) (linkId : LinkId) (phase : LinkPhase) (timeoutAt : ℕ) :
    Option (Links × Except TrackLinkError Unit) := do
  match ← links.table.indexOf linkId with
  | some _ => return (links, .error .alreadyTracked)
  | none =>
      let table ← links.table.push linkId phase (some timeoutAt)
      let links ← { links with table := table }.refreshEarliestTimeout
      return (links, .ok ())

def trackInitiated (links : Links) (link : InitiatedLink) :
    Option (Links × Except TrackLinkError Unit) :=
  links.track link.linkId (.pending link.pending) link.timeoutAt

def trackResponding (links : Links) (link : RespondingLink) :
    Option (Links × Except TrackLinkError Unit) :=
  links.track link.linkId (.handshake link.handshake) link.timeoutAt

/-- The row in a slot becomes this active link, with its deadline. -/
def setActive (links : Links) (slot : ℕ) (link : ActiveLink) : Option Links := do
  let table ← (links.table.setPhase slot (.active link)).setTimeoutAt slot (some link.deadline)
  { links with table := table }.refreshEarliestTimeout

/-- The session a pending link becomes. -/
def initiatedSession (pending : PendingLink) (key : LinkKey) (activation : LinkActivation)
    (now : ℕ) : ActiveLink where
  key := key
  role := .initiator pending.linkSigning
  rtt := activation.rtt
  mtu := activation.mtu
  attachedInterface := activation.attachedInterface
  lastInbound := now
  lastOutbound := now
  lastKeepaliveSent := now
  keepaliveMs := keepaliveMsFrom activation.rtt
  peerSigning := activation.peerSigning
  remoteIdentity := none

def activateInitiated (links : Links) (linkId : LinkId) (key : LinkKey)
    (activation : LinkActivation) (now : ℕ) :
    Option (Links × Except LinkActivationError Unit) := do
  match ← links.table.indexOf linkId with
  | none => return (links, .error .unknownLink)
  | some slot =>
      match (links.table.rows[slot]?).map LinkRow.phase with
      | some (.pending pending) =>
          let links ← links.setActive slot (initiatedSession pending key activation now)
          return (links, .ok ())
      | _ => return (links, .error .wrongPhase)

/-- The session a handshake becomes. -/
def respondingSession (handshake : HandshakeLink) (rtt : ℕ) (attachedInterface : InterfaceId)
    (now : ℕ) : ActiveLink where
  key := handshake.key
  role := .responder handshake.destination handshake.identity handshake.proofStrategy
  rtt := rtt
  mtu := handshake.mtu
  attachedInterface := attachedInterface
  lastInbound := now
  lastOutbound := handshake.requestedAt
  lastKeepaliveSent := handshake.requestedAt
  keepaliveMs := keepaliveMsFrom rtt
  peerSigning := handshake.initiatorSigning
  remoteIdentity := none

def activateResponding (links : Links) (linkId : LinkId) (rtt : ℕ)
    (attachedInterface : InterfaceId) (now : ℕ) :
    Option (Links × Except LinkActivationError DestinationHash) := do
  match ← links.table.indexOf linkId with
  | none => return (links, .error .unknownLink)
  | some slot =>
      match (links.table.rows[slot]?).map LinkRow.phase with
      | some (.handshake handshake) =>
          let links ← links.setActive slot (respondingSession handshake rtt attachedInterface now)
          return (links, .ok handshake.destination)
      | _ => return (links, .error .wrongPhase)

/-- The notes on an active link: the row found, changed where it is active, and the cache. -/
def noteActive (links : Links) (linkId : LinkId) (note : ActiveLink → ActiveLink) :
    Option Links := do
  match ← links.table.indexOf linkId with
  | none => return links
  | some slot =>
      match (links.table.rows[slot]?).map LinkRow.phase with
      | some (.active link) => links.setActive slot (note link)
      | _ => links.refreshEarliestTimeout

def noteInbound (links : Links) (linkId : LinkId) (now : ℕ) : Option Links :=
  links.noteActive linkId fun link => { link with lastInbound := max link.lastInbound now }

def noteOutbound (links : Links) (linkId : LinkId) (now : ℕ) : Option Links :=
  links.noteActive linkId fun link => { link with lastOutbound := now }

def noteKeepaliveSent (links : Links) (linkId : LinkId) (now : ℕ) : Option Links :=
  links.noteActive linkId fun link => { link with lastOutbound := now, lastKeepaliveSent := now }

/-- `note_identified` sets no deadline: none depends on it. -/
def noteIdentified (links : Links) (linkId : LinkId) (identity : IdentityHash) : Option Links := do
  match ← links.table.indexOf linkId with
  | none => return links
  | some slot =>
      match (links.table.rows[slot]?).map LinkRow.phase with
      | some (.active link) =>
          let phase := .active { link with remoteIdentity := some identity }
          return { links with table := links.table.setPhase slot phase }
      | _ => return links

def removeSlot (links : Links) (slot : ℕ) : Option Links := do
  let table ← links.table.swapRemove slot
  { links with table := table }.refreshEarliestTimeout

def remove (links : Links) (linkId : LinkId) : Option (Links × Bool) := do
  match ← links.table.indexOf linkId with
  | none => return (links, false)
  | some slot =>
      let links ← links.removeSlot slot
      return (links, true)

/-! ## Timers -/

def isStale (now : ℕ) : LinkPhase → Bool
  | .active link => decide (link.teardownAt ≤ now)
  | .pending _ | .handshake _ => false

def popStale (links : Links) (now : ℕ) : Option (Links × Option LinkId) := do
  let (table, found) ← links.table.firstDueTimeoutMatching now (isStale now)
  let links := { links with table := table }
  match found with
  | none => return (links, none)
  | some slot =>
      let row ← links.table.rows[slot]?
      return (links, some row.linkId)

def owesKeepalive (now : ℕ) : LinkPhase → Bool
  | .active link =>
      link.isInitiator && decide (link.sendAt ≤ now) && decide (link.sendAt ≤ link.staleAt)
  | .pending _ | .handshake _ => false

def keptAlive (link : ActiveLink) (now : ℕ) : ActiveLink :=
  { link with lastKeepaliveSent := now, lastOutbound := now }

def popDueKeepalive (links : Links) (now : ℕ) : Option (Links × Option DueKeepalive) := do
  let (table, found) ← links.table.firstDueTimeoutMatching now (owesKeepalive now)
  let links := { links with table := table }
  match found with
  | none => return (links, none)
  | some slot =>
      let row ← links.table.rows[slot]?
      match row.phase with
      | .active link =>
          if link.isInitiator then
            let links ← links.setActive slot (keptAlive link now)
            return (links, some ⟨row.linkId, link.attachedInterface⟩)
          else
            return (links, none)
      | _ => return (links, none)

def isUnestablished : LinkPhase → Bool
  | .pending _ | .handshake _ => true
  | .active _ => false

def overdueOf (row : LinkRow) : Option OverdueLink :=
  match row.phase with
  | .pending link =>
      some (.initiated row.linkId link.commandId link.destination link.requestedAt)
  | .handshake _ => some (.responding row.linkId)
  | .active _ => none

def popOverdue (links : Links) (now : ℕ) : Option (Links × Option OverdueLink) := do
  let (table, found) ← links.table.firstDueTimeoutMatching now isUnestablished
  let links := { links with table := table }
  match found with
  | none => return (links, none)
  | some slot =>
      let row ← links.table.rows[slot]?
      match overdueOf row with
      | none => return (links, none)
      | some overdue =>
          let links ← links.removeSlot slot
          return (links, some overdue)

end Links

/-! ## Operations -/

inductive LinksOp
  | trackInitiated (link : InitiatedLink)
  | trackResponding (link : RespondingLink)
  | activateInitiated (linkId : LinkId) (key : LinkKey) (activation : LinkActivation) (now : ℕ)
  | activateResponding (linkId : LinkId) (rtt : ℕ) (attachedInterface : InterfaceId) (now : ℕ)
  | noteInbound (linkId : LinkId) (now : ℕ)
  | noteOutbound (linkId : LinkId) (now : ℕ)
  | noteKeepaliveSent (linkId : LinkId) (now : ℕ)
  | noteIdentified (linkId : LinkId) (identity : IdentityHash)
  | remove (linkId : LinkId)
  | popStale (now : ℕ)
  | popDueKeepalive (now : ℕ)
  | popOverdue (now : ℕ)

inductive LinksAnswer
  | done
  | tracked (result : Except TrackLinkError Unit)
  | activated (result : Except LinkActivationError Unit)
  | activatedFor (result : Except LinkActivationError DestinationHash)
  | removed (found : Bool)
  | stale (linkId : Option LinkId)
  | keepalive (due : Option DueKeepalive)
  | overdue (link : Option OverdueLink)

namespace LinksOp

/-- The row that an operation tracks: its link, phase and deadline. -/
def tracks : LinksOp → Option (LinkId × LinkPhase × ℕ)
  | .trackInitiated link => some (link.linkId, .pending link.pending, link.timeoutAt)
  | .trackResponding link => some (link.linkId, .handshake link.handshake, link.timeoutAt)
  | _ => none

/-- What an operation notes on an active link. -/
def notes : LinksOp → Option (LinkId × (ActiveLink → ActiveLink))
  | .noteInbound linkId now =>
      some (linkId, fun link => { link with lastInbound := max link.lastInbound now })
  | .noteOutbound linkId now => some (linkId, fun link => { link with lastOutbound := now })
  | .noteKeepaliveSent linkId now =>
      some (linkId, fun link => { link with lastOutbound := now, lastKeepaliveSent := now })
  | .noteIdentified linkId identity =>
      some (linkId, fun link => { link with remoteIdentity := some identity })
  | _ => none

end LinksOp

def Links.run (links : Links) : LinksOp → Option (Links × LinksAnswer)
  | .trackInitiated link => (links.trackInitiated link).map fun r => (r.1, .tracked r.2)
  | .trackResponding link => (links.trackResponding link).map fun r => (r.1, .tracked r.2)
  | .activateInitiated linkId key activation now =>
      (links.activateInitiated linkId key activation now).map fun r => (r.1, .activated r.2)
  | .activateResponding linkId rtt attachedInterface now =>
      (links.activateResponding linkId rtt attachedInterface now).map fun r =>
        (r.1, .activatedFor r.2)
  | .noteInbound linkId now => (links.noteInbound linkId now).map fun links => (links, .done)
  | .noteOutbound linkId now => (links.noteOutbound linkId now).map fun links => (links, .done)
  | .noteKeepaliveSent linkId now =>
      (links.noteKeepaliveSent linkId now).map fun links => (links, .done)
  | .noteIdentified linkId identity =>
      (links.noteIdentified linkId identity).map fun links => (links, .done)
  | .remove linkId => (links.remove linkId).map fun r => (r.1, .removed r.2)
  | .popStale now => (links.popStale now).map fun r => (r.1, .stale r.2)
  | .popDueKeepalive now => (links.popDueKeepalive now).map fun r => (r.1, .keepalive r.2)
  | .popOverdue now => (links.popOverdue now).map fun r => (r.1, .overdue r.2)

/-! ## The map it stands for -/

/-- What is known of each link. -/
abbrev LinkMap := LinkId → Option LinkRow

def activeRow (linkId : LinkId) (link : ActiveLink) : LinkRow :=
  ⟨linkId, some link.deadline, .active link⟩

/-- Why a link is not activated. -/
def refusal (map : LinkMap) (linkId : LinkId) : LinkActivationError :=
  if (map linkId).isSome then .wrongPhase else .unknownLink

/-- What each operation does to the map, and answers.  A timer may hand out any row that is due and
of its kind. -/
inductive Moves (map : LinkMap) : LinksOp → LinkMap → LinksAnswer → Prop
  | tracked {op : LinksOp} {linkId : LinkId} {phase : LinkPhase} {timeoutAt : ℕ}
      (hop : op.tracks = some (linkId, phase, timeoutAt)) (hnew : map linkId = none) :
      Moves map op (Function.update map linkId (some ⟨linkId, some timeoutAt, phase⟩))
        (.tracked (.ok ()))
  | alreadyTracked {op : LinksOp} {linkId : LinkId} {phase : LinkPhase} {timeoutAt : ℕ}
      (hop : op.tracks = some (linkId, phase, timeoutAt)) (hold : (map linkId).isSome = true) :
      Moves map op map (.tracked (.error .alreadyTracked))
  | initiated {linkId : LinkId} {key : LinkKey} {activation : LinkActivation} {now : ℕ}
      {row : LinkRow} {pending : PendingLink} (hrow : map linkId = some row)
      (hphase : row.phase = .pending pending) :
      Moves map (.activateInitiated linkId key activation now)
        (Function.update map linkId
          (some (activeRow linkId (Links.initiatedSession pending key activation now))))
        (.activated (.ok ()))
  | notInitiated {linkId : LinkId} {key : LinkKey} {activation : LinkActivation} {now : ℕ}
      (hnot : ∀ row pending, map linkId = some row → row.phase ≠ .pending pending) :
      Moves map (.activateInitiated linkId key activation now) map
        (.activated (.error (refusal map linkId)))
  | responded {linkId : LinkId} {rtt : ℕ} {attachedInterface : InterfaceId} {now : ℕ}
      {row : LinkRow} {handshake : HandshakeLink} (hrow : map linkId = some row)
      (hphase : row.phase = .handshake handshake) :
      Moves map (.activateResponding linkId rtt attachedInterface now)
        (Function.update map linkId
          (some (activeRow linkId (Links.respondingSession handshake rtt attachedInterface now))))
        (.activatedFor (.ok handshake.destination))
  | notResponded {linkId : LinkId} {rtt : ℕ} {attachedInterface : InterfaceId} {now : ℕ}
      (hnot : ∀ row handshake, map linkId = some row → row.phase ≠ .handshake handshake) :
      Moves map (.activateResponding linkId rtt attachedInterface now) map
        (.activatedFor (.error (refusal map linkId)))
  | noted {op : LinksOp} {linkId : LinkId} {note : ActiveLink → ActiveLink} {row : LinkRow}
      {link : ActiveLink} (hop : op.notes = some (linkId, note)) (hrow : map linkId = some row)
      (hphase : row.phase = .active link) :
      Moves map op (Function.update map linkId (some (activeRow linkId (note link)))) .done
  | notNoted {op : LinksOp} {linkId : LinkId} {note : ActiveLink → ActiveLink}
      (hop : op.notes = some (linkId, note))
      (hnot : ∀ row link, map linkId = some row → row.phase ≠ .active link) :
      Moves map op map .done
  | removed {linkId : LinkId} :
      Moves map (.remove linkId) (Function.update map linkId none) (.removed (map linkId).isSome)
  | stale {now : ℕ} {linkId : LinkId} {row : LinkRow} (hrow : map linkId = some row)
      (hdue : row.DueAt now) (hstale : Links.isStale now row.phase = true) :
      Moves map (.popStale now) map (.stale (some linkId))
  | noneStale {now : ℕ}
      (hnone : ∀ linkId row, map linkId = some row → row.DueAt now →
        Links.isStale now row.phase = false) :
      Moves map (.popStale now) map (.stale none)
  | keepalive {now : ℕ} {linkId : LinkId} {row : LinkRow} {link : ActiveLink}
      (hrow : map linkId = some row) (hdue : row.DueAt now) (hphase : row.phase = .active link)
      (howes : Links.owesKeepalive now row.phase = true) :
      Moves map (.popDueKeepalive now)
        (Function.update map linkId (some (activeRow linkId (Links.keptAlive link now))))
        (.keepalive (some ⟨linkId, link.attachedInterface⟩))
  | noneKept {now : ℕ}
      (hnone : ∀ linkId row, map linkId = some row → row.DueAt now →
        Links.owesKeepalive now row.phase = false) :
      Moves map (.popDueKeepalive now) map (.keepalive none)
  | overdue {now : ℕ} {linkId : LinkId} {row : LinkRow} {link : OverdueLink}
      (hrow : map linkId = some row) (hdue : row.DueAt now)
      (hlink : Links.overdueOf row = some link) :
      Moves map (.popOverdue now) (Function.update map linkId none) (.overdue (some link))
  | noneOverdue {now : ℕ}
      (hnone : ∀ linkId row, map linkId = some row → row.DueAt now →
        Links.isUnestablished row.phase = false) :
      Moves map (.popOverdue now) map (.overdue none)

namespace Moves

variable {map map' : LinkMap} {now : ℕ}

/-- A timer for unestablished links takes out one that is due, or there is none. -/
theorem popOverdue_inv {overdue : Option OverdueLink}
    (h : Moves map (.popOverdue now) map' (.overdue overdue)) :
    (overdue = none ∧ map' = map ∧ ∀ linkId row, map linkId = some row → row.DueAt now →
        Links.isUnestablished row.phase = false) ∨
      ∃ linkId row link, overdue = some link ∧ map linkId = some row ∧ row.DueAt now ∧
        Links.overdueOf row = some link ∧ map' = Function.update map linkId none := by
  cases h with
  | overdue hrow hdue hlink => exact .inr ⟨_, _, _, rfl, hrow, hdue, hlink, rfl⟩
  | noneOverdue hnone => exact .inl ⟨rfl, rfl, hnone⟩

/-- A timer for stale sessions names one that is due, or there is none. -/
theorem popStale_inv {stale : Option LinkId} (h : Moves map (.popStale now) map' (.stale stale)) :
    map' = map ∧ ((stale = none ∧ ∀ linkId row, map linkId = some row → row.DueAt now →
        Links.isStale now row.phase = false) ∨
      ∃ linkId row, stale = some linkId ∧ map linkId = some row ∧
        Links.isStale now row.phase = true) := by
  cases h with
  | stale hrow _ hstale => exact ⟨rfl, .inr ⟨_, _, rfl, hrow, hstale⟩⟩
  | noneStale hnone => exact ⟨rfl, .inl ⟨rfl, hnone⟩⟩

/-- A keepalive is sent for a session that owes one, or there is none. -/
theorem popDueKeepalive_inv {due : Option DueKeepalive}
    (h : Moves map (.popDueKeepalive now) map' (.keepalive due)) :
    (due = none ∧ map' = map ∧ ∀ linkId row, map linkId = some row → row.DueAt now →
        Links.owesKeepalive now row.phase = false) ∨
      ∃ linkId row link, due = some ⟨linkId, link.attachedInterface⟩ ∧ map linkId = some row ∧
        row.phase = .active link ∧ Links.owesKeepalive now row.phase = true ∧
        map' = Function.update map linkId (some (activeRow linkId (Links.keptAlive link now))) := by
  cases h with
  | keepalive hrow _ hphase howes => exact .inr ⟨_, _, _, rfl, hrow, hphase, howes, rfl⟩
  | noneKept hnone => exact .inl ⟨rfl, rfl, hnone⟩

theorem remove_inv {linkId : LinkId} {found : Bool}
    (h : Moves map (.remove linkId) map' (.removed found)) :
    map' = Function.update map linkId none := by
  cases h
  rfl

end Moves

/-! ## The invariant -/

/-- A row has the deadline of its phase; a session keeps alive within the bounds. -/
def LinkRow.Timed (row : LinkRow) : Prop :=
  match row.phase with
  | .active link =>
      row.timeoutAt = some link.deadline ∧ keepaliveMinMs ≤ link.keepaliveMs ∧
        link.keepaliveMs ≤ keepaliveMaxMs
  | .pending _ | .handshake _ => row.timeoutAt.isSome = true

namespace Links

/-- The map of a table. -/
def view (links : Links) : LinkMap :=
  viewOf LinkRow.linkId links.table.rows

structure Coherent (links : Links) : Prop where
  table : links.table.WellFormed
  timed : ∀ row ∈ links.table.rows, row.Timed
  earliest : links.earliestTimeout = (links.table.rows.filterMap LinkRow.timeoutAt).min?

theorem coherent_default : Coherent default :=
  ⟨HeapLinkTable.wellFormed_default, fun _ hrow => absurd hrow List.not_mem_nil, rfl⟩

/-- A lookup by link id: no row has it, or this one. -/
theorem Coherent.find {links : Links} (h : Coherent links) (linkId : LinkId) :
    (links.table.indexOf linkId = some none ∧ links.view linkId = none) ∨
      ∃ slot row, links.table.indexOf linkId = some (some slot) ∧
        links.table.rows[slot]? = some row ∧ row.linkId = linkId ∧
        links.view linkId = some row := by
  rw [h.table.indexOf]
  cases hscan : HeapLemireIndex.scanRows linkId links.table.rows with
  | none =>
      refine .inl ⟨rfl, ?_⟩
      rw [HeapLemireIndex.scanRows, List.findIdx?_eq_none_iff] at hscan
      rw [view, viewOf_eq_none_iff]
      intro row hrow hid
      exact Bool.false_ne_true ((hscan row hrow).symm.trans (decide_eq_true hid))
  | some slot =>
      rw [HeapLemireIndex.scanRows, List.findIdx?_eq_some_iff_getElem] at hscan
      obtain ⟨hlt, hid, -⟩ := hscan
      obtain ⟨row, hrow, hid'⟩ : ∃ row, links.table.rows[slot]? = some row ∧ row.linkId = linkId :=
        ⟨_, List.getElem?_eq_getElem hlt, of_decide_eq_true hid⟩
      exact .inr ⟨slot, _, rfl, hrow, hid',
        (viewOf_iff h.table.unique).2 ⟨List.mem_of_getElem? hrow, hid'⟩⟩

/-- The cache is brought up to date. -/
theorem refresh_spec (links : Links) (htable : links.table.WellFormed)
    (htimed : ∀ row ∈ links.table.rows, row.Timed) :
    ∃ links', links.refreshEarliestTimeout = some links' ∧ links'.view = links.view ∧
      links'.table.rows = links.table.rows ∧ Coherent links' := by
  obtain ⟨table, hrun, hrows, hwell⟩ := htable.earliestIndexedTimeout
  refine ⟨⟨table, (links.table.rows.filterMap LinkRow.timeoutAt).min?⟩, ?_, ?_, hrows, hwell, ?_, ?_⟩
  · rw [refreshEarliestTimeout, hrun]
    rfl
  · rw [view, view, hrows]
  · rw [hrows]
    exact htimed
  · rw [hrows]

/-- A row becomes an active link. -/
theorem setActive_spec {links : Links} (htable : links.table.WellFormed)
    (htimed : ∀ row ∈ links.table.rows, row.Timed) {slot : ℕ} {row : LinkRow}
    (hrow : links.table.rows[slot]? = some row) (link : ActiveLink)
    (hmin : keepaliveMinMs ≤ link.keepaliveMs) (hmax : link.keepaliveMs ≤ keepaliveMaxMs) :
    ∃ links', links.setActive slot link = some links' ∧ Coherent links' ∧
      links'.view =
        Function.update links.view row.linkId (some (activeRow row.linkId link)) := by
  have hslot : slot < links.table.rows.length := (List.getElem?_eq_some_iff.1 hrow).1
  have hphased := htable.setPhase slot (.active link)
  have hlen : (links.table.setPhase slot (.active link)).rows.length = links.table.rows.length :=
    List.length_modify ..
  obtain ⟨table, hset, hrows, hwell⟩ :=
    hphased.setTimeoutAt (by rw [hlen]; exact hslot) (some link.deadline)
  have hold : (links.table.setPhase slot (.active link)).rows[slot]? =
      some { row with phase := .active link } := by
    rw [HeapLinkTable.setPhase, getElem?_modify, if_pos rfl, hrow]
    rfl
  -- what is in the table now: the row made active, and the others
  have hmem : ∀ r, r ∈ table.rows ↔
      r = activeRow row.linkId link ∨ r ∈ links.table.rows ∧ r.linkId ≠ row.linkId := by
    intro r
    rw [hrows, mem_modify hphased.unique hold, HeapLinkTable.setPhase,
      mem_modify htable.unique hrow]
    constructor
    · rintro (h | ⟨h | h, hne⟩)
      · exact .inl h
      · exact absurd (congrArg LinkRow.linkId h) hne
      · exact .inr h
    · rintro (h | h)
      · exact .inl h
      · exact .inr ⟨.inr h, h.2⟩
  have htimed' : ∀ r ∈ table.rows, r.Timed := by
    intro r hr
    rcases (hmem r).1 hr with rfl | ⟨hr, -⟩
    · exact ⟨rfl, hmin, hmax⟩
    · exact htimed r hr
  obtain ⟨links', hrefresh, hview, -, hcoherent⟩ :=
    refresh_spec { links with table := table } hwell htimed'
  refine ⟨links', ?_, hcoherent, ?_⟩
  · rw [setActive, hset]
    exact hrefresh
  · rw [hview, view, view]
    refine viewOf_update htable.unique hwell.unique ?_ fun r => ?_
    · rintro r hr
      rw [← Option.some.inj hr]
      rfl
    · rw [hmem, Option.some.injEq, eq_comm]

/-- A row leaves the table. -/
theorem removeSlot_spec {links : Links} (htable : links.table.WellFormed)
    (htimed : ∀ row ∈ links.table.rows, row.Timed) {slot : ℕ} {row : LinkRow}
    (hrow : links.table.rows[slot]? = some row) :
    ∃ links', links.removeSlot slot = some links' ∧ Coherent links' ∧
      links'.table.rows.length + 1 = links.table.rows.length ∧
      links'.view = Function.update links.view row.linkId none := by
  have hslot : slot < links.table.rows.length := (List.getElem?_eq_some_iff.1 hrow).1
  obtain ⟨table, hremove, hrows, hwell⟩ := htable.swapRemove hslot
  have hmem := mem_swapRemove htable.unique hrow
  rw [← hrows] at hmem
  obtain ⟨links', hrefresh, hview, hrows', hcoherent⟩ :=
    refresh_spec { links with table := table } hwell
      fun r hr => htimed r ((hmem r).1 hr).1
  refine ⟨links', ?_, hcoherent, ?_, ?_⟩
  · rw [removeSlot, hremove]
    exact hrefresh
  · rw [hrows', hrows, length_swapRemove hslot]
    omega
  · rw [hview, view, view]
    refine viewOf_update htable.unique hwell.unique (fun r hr => nomatch hr) fun r => ?_
    rw [hmem]
    exact ⟨.inr, fun h => h.resolve_left (fun h => nomatch h)⟩

/-! ## Each operation -/

/-- What an operation comes to: it ends, keeps the links coherent, and moves the map. -/
def Does (links : Links) (op : LinksOp) (result : Option (Links × LinksAnswer)) : Prop :=
  ∃ links' answer, result = some (links', answer) ∧ Coherent links' ∧
    Moves links.view op links'.view answer

theorem track_does {links : Links} (h : Coherent links)
    (hroom : links.table.rows.length < HeapLemireIndex.maxRows) {op : LinksOp} {linkId : LinkId}
    {phase : LinkPhase} {timeoutAt : ℕ} (hop : op.tracks = some (linkId, phase, timeoutAt))
    (htimed : LinkRow.Timed ⟨linkId, some timeoutAt, phase⟩) :
    Does links op ((links.track linkId phase timeoutAt).map fun r => (r.1, .tracked r.2)) := by
  rw [track]
  rcases h.find linkId with ⟨hindex, hview⟩ | ⟨slot, row, hindex, -, -, hview⟩
  · have hnew : ∀ row ∈ links.table.rows, row.linkId ≠ linkId := by
      intro row hrow hid
      have hsome := (viewOf_iff h.table.unique).2 ⟨hrow, hid⟩
      rw [← view, hview] at hsome
      cases hsome
    obtain ⟨table, hpush, hrows, hwell⟩ := h.table.push hnew hroom
    have hmem : ∀ row, row ∈ table.rows ↔
        row ∈ links.table.rows ∨ row = ⟨linkId, some timeoutAt, phase⟩ := by
      intro row
      rw [hrows, List.mem_append, List.mem_singleton]
    have hall : ∀ row ∈ table.rows, row.Timed := by
      intro row hrow
      rcases (hmem row).1 hrow with hrow | rfl
      · exact h.timed row hrow
      · exact htimed
    obtain ⟨links', hrefresh, hview', -, hcoherent⟩ :=
      refresh_spec { links with table := table } hwell hall
    refine ⟨links', .tracked (.ok ()), ?_, hcoherent, ?_⟩
    · simp only [hindex, hpush, hrefresh, Option.bind_eq_bind, Option.bind_some]
      rfl
    · have hupdate : links'.view =
          Function.update links.view linkId (some ⟨linkId, some timeoutAt, phase⟩) := by
        rw [hview', view, view]
        refine viewOf_update h.table.unique hwell.unique ?_ fun row => ?_
        · rintro row hrow
          rw [← Option.some.inj hrow]
        · rw [hmem, Option.some.injEq]
          constructor
          · rintro (hrow | rfl)
            · exact .inr ⟨hrow, hnew row hrow⟩
            · exact .inl rfl
          · rintro (rfl | hrow)
            · exact .inr rfl
            · exact .inl hrow.1
      rw [hupdate]
      exact .tracked hop hview
  · refine ⟨links, .tracked (.error .alreadyTracked), ?_, h, .alreadyTracked hop ?_⟩
    · simp only [hindex, Option.bind_eq_bind, Option.bind_some]
      rfl
    · rw [hview]
      rfl

theorem keepaliveMsFrom_bounds (rtt : ℕ) :
    keepaliveMinMs ≤ keepaliveMsFrom rtt ∧ keepaliveMsFrom rtt ≤ keepaliveMaxMs := by
  rw [keepaliveMsFrom]
  exact ⟨le_min (le_max_right _ _) (by decide), min_le_right _ _⟩

theorem refusal_of_none {map : LinkMap} {linkId : LinkId} (h : map linkId = none) :
    refusal map linkId = .unknownLink := by
  rw [refusal, h]
  rfl

theorem refusal_of_some {map : LinkMap} {linkId : LinkId} {row : LinkRow}
    (h : map linkId = some row) : refusal map linkId = .wrongPhase := by
  rw [refusal, h]
  rfl

/-- A link that is not there is in no phase. -/
theorem not_phase_of_none {map : LinkMap} {linkId : LinkId} {phase : LinkPhase}
    (h : map linkId = none) (row : LinkRow) (hrow : map linkId = some row) : row.phase ≠ phase := by
  rw [h] at hrow
  cases hrow

/-- A link is in one phase only. -/
theorem not_phase_of_some {map : LinkMap} {linkId : LinkId} {found : LinkRow} {phase : LinkPhase}
    (h : map linkId = some found) (hne : found.phase ≠ phase) (row : LinkRow)
    (hrow : map linkId = some row) : row.phase ≠ phase := by
  rw [h, Option.some.injEq] at hrow
  exact hrow ▸ hne

theorem activateInitiated_does {links : Links} (h : Coherent links) (linkId : LinkId)
    (key : LinkKey) (activation : LinkActivation) (now : ℕ) :
    Does links (.activateInitiated linkId key activation now)
      ((links.activateInitiated linkId key activation now).map fun r => (r.1, .activated r.2)) := by
  rw [activateInitiated]
  rcases h.find linkId with ⟨hindex, hview⟩ | ⟨slot, row, hindex, hrow, rfl, hview⟩
  · refine ⟨links, .activated (.error .unknownLink), ?_, h, ?_⟩
    · simp only [hindex, Option.bind_eq_bind, Option.bind_some]
      rfl
    · rw [← refusal_of_none hview]
      exact .notInitiated fun row _ hrow => not_phase_of_none hview row hrow
  · simp only [hindex, hrow, Option.bind_eq_bind, Option.bind_some, Option.map_some]
    cases hphase : row.phase with
    | pending pending =>
        obtain ⟨hmin, hmax⟩ := keepaliveMsFrom_bounds activation.rtt
        obtain ⟨links', hset, hcoherent, hview'⟩ := setActive_spec h.table h.timed hrow
          (initiatedSession pending key activation now) hmin hmax
        refine ⟨links', .activated (.ok ()), by simp only [hset, Option.bind_some]; rfl,
          hcoherent, ?_⟩
        rw [hview']
        exact .initiated hview hphase
    | handshake other | active other =>
        refine ⟨links, .activated (.error .wrongPhase), rfl, h, ?_⟩
        rw [← refusal_of_some hview]
        exact .notInitiated fun r _ hr =>
          not_phase_of_some hview (by rw [hphase]; exact nofun) r hr

theorem activateResponding_does {links : Links} (h : Coherent links) (linkId : LinkId) (rtt : ℕ)
    (attachedInterface : InterfaceId) (now : ℕ) :
    Does links (.activateResponding linkId rtt attachedInterface now)
      ((links.activateResponding linkId rtt attachedInterface now).map fun r =>
        (r.1, .activatedFor r.2)) := by
  rw [activateResponding]
  rcases h.find linkId with ⟨hindex, hview⟩ | ⟨slot, row, hindex, hrow, rfl, hview⟩
  · refine ⟨links, .activatedFor (.error .unknownLink), ?_, h, ?_⟩
    · simp only [hindex, Option.bind_eq_bind, Option.bind_some]
      rfl
    · rw [← refusal_of_none hview]
      exact .notResponded fun row _ hrow => not_phase_of_none hview row hrow
  · simp only [hindex, hrow, Option.bind_eq_bind, Option.bind_some, Option.map_some]
    cases hphase : row.phase with
    | handshake handshake =>
        obtain ⟨hmin, hmax⟩ := keepaliveMsFrom_bounds rtt
        obtain ⟨links', hset, hcoherent, hview'⟩ := setActive_spec h.table h.timed hrow
          (respondingSession handshake rtt attachedInterface now) hmin hmax
        refine ⟨links', .activatedFor (.ok handshake.destination),
          by simp only [hset, Option.bind_some]; rfl, hcoherent, ?_⟩
        rw [hview']
        exact .responded hview hphase
    | pending other | active other =>
        refine ⟨links, .activatedFor (.error .wrongPhase), rfl, h, ?_⟩
        rw [← refusal_of_some hview]
        exact .notResponded fun r _ hr =>
          not_phase_of_some hview (by rw [hphase]; exact nofun) r hr

/-- The bounds of the keepalive of an active row. -/
theorem Coherent.keepalive {links : Links} (h : Coherent links) {row : LinkRow} {link : ActiveLink}
    (hrow : row ∈ links.table.rows) (hphase : row.phase = .active link) :
    row.timeoutAt = some link.deadline ∧ keepaliveMinMs ≤ link.keepaliveMs ∧
      link.keepaliveMs ≤ keepaliveMaxMs := by
  have htimed := h.timed row hrow
  rwa [LinkRow.Timed, hphase] at htimed

theorem noteActive_does {links : Links} (h : Coherent links) {op : LinksOp} {linkId : LinkId}
    {note : ActiveLink → ActiveLink} (hop : op.notes = some (linkId, note))
    (hkeep : ∀ link, (note link).keepaliveMs = link.keepaliveMs) :
    Does links op ((links.noteActive linkId note).map fun links => (links, .done)) := by
  rw [noteActive]
  rcases h.find linkId with ⟨hindex, hview⟩ | ⟨slot, row, hindex, hrow, rfl, hview⟩
  · refine ⟨links, .done, ?_, h, .notNoted hop fun row _ hrow => not_phase_of_none hview row hrow⟩
    simp only [hindex, Option.bind_eq_bind, Option.bind_some]
    rfl
  · simp only [hindex, hrow, Option.bind_eq_bind, Option.bind_some, Option.map_some]
    cases hphase : row.phase with
    | active link =>
        obtain ⟨-, hmin, hmax⟩ := h.keepalive (List.mem_of_getElem? hrow) hphase
        rw [← hkeep] at hmin hmax
        obtain ⟨links', hset, hcoherent, hview'⟩ :=
          setActive_spec h.table h.timed hrow (note link) hmin hmax
        refine ⟨links', .done, by simp only [hset, Option.map_some], hcoherent, ?_⟩
        rw [hview']
        exact .noted hop hview hphase
    | pending other | handshake other =>
        obtain ⟨links', hrefresh, hview', -, hcoherent⟩ := refresh_spec links h.table h.timed
        refine ⟨links', .done, by simp only [hrefresh, Option.map_some], hcoherent, ?_⟩
        rw [hview']
        exact .notNoted hop fun r _ hr =>
          not_phase_of_some hview (by rw [hphase]; exact nofun) r hr

/-- `note_identified` leaves the deadline, which is the one of the row it leaves. -/
theorem noteIdentified_does {links : Links} (h : Coherent links) (linkId : LinkId)
    (identity : IdentityHash) :
    Does links (.noteIdentified linkId identity)
      ((links.noteIdentified linkId identity).map fun links => (links, .done)) := by
  rw [noteIdentified]
  rcases h.find linkId with ⟨hindex, hview⟩ | ⟨slot, row, hindex, hrow, rfl, hview⟩
  · refine ⟨links, .done, ?_, h, .notNoted rfl fun row _ hrow => not_phase_of_none hview row hrow⟩
    simp only [hindex, Option.bind_eq_bind, Option.bind_some]
    rfl
  · simp only [hindex, hrow, Option.bind_eq_bind, Option.bind_some, Option.map_some]
    cases hphase : row.phase with
    | active link =>
        have hkept := h.keepalive (List.mem_of_getElem? hrow) hphase
        let phase := LinkPhase.active { link with remoteIdentity := some identity }
        have hwell := h.table.setPhase slot phase
        have hnew : activeRow row.linkId { link with remoteIdentity := some identity } =
            { row with phase := phase } := by
          rw [activeRow, LinkRow.mk.injEq]
          exact ⟨rfl, hkept.1.symm, rfl⟩
        have hmem : ∀ r, r ∈ (links.table.setPhase slot phase).rows ↔
            r = { row with phase := phase } ∨ r ∈ links.table.rows ∧ r.linkId ≠ row.linkId := fun r =>
          mem_modify h.table.unique hrow r
        refine ⟨{ links with table := links.table.setPhase slot phase }, .done, rfl, ⟨hwell, ?_, ?_⟩,
          ?_⟩
        · intro r hr
          rcases (hmem r).1 hr with rfl | ⟨hr, -⟩
          · exact hkept
          · exact h.timed r hr
        · have htimes : (links.table.setPhase slot phase).rows.filterMap LinkRow.timeoutAt =
              links.table.rows.filterMap LinkRow.timeoutAt := by
            have hcolumn : (links.table.setPhase slot phase).rows.map LinkRow.timeoutAt =
                links.table.rows.map LinkRow.timeoutAt := map_modify fun _ => rfl
            rw [← Function.id_comp LinkRow.timeoutAt, ← List.filterMap_map, hcolumn,
              List.filterMap_map]
          rw [htimes]
          exact h.earliest
        · have hupdate : ({ links with table := links.table.setPhase slot phase } : Links).view =
              Function.update links.view row.linkId
                (some (activeRow row.linkId { link with remoteIdentity := some identity })) := by
            rw [hnew]
            refine viewOf_update h.table.unique hwell.unique ?_ fun r => ?_
            · rintro r hr
              rw [← Option.some.inj hr]
            · rw [hmem, Option.some.injEq, eq_comm]
          have hop : LinksOp.notes (.noteIdentified row.linkId identity) =
              some (row.linkId, fun link => { link with remoteIdentity := some identity }) := rfl
          rw [hupdate]
          exact .noted hop hview hphase
    | pending other | handshake other =>
        refine ⟨links, .done, rfl, h, .notNoted rfl fun r _ hr =>
          not_phase_of_some hview (by rw [hphase]; exact nofun) r hr⟩

theorem remove_does {links : Links} (h : Coherent links) (linkId : LinkId) :
    Does links (.remove linkId) ((links.remove linkId).map fun r => (r.1, .removed r.2)) := by
  rw [remove]
  have hmove : Moves links.view (.remove linkId) _ _ := .removed
  rcases h.find linkId with ⟨hindex, hview⟩ | ⟨slot, row, hindex, hrow, rfl, hview⟩
  · refine ⟨links, .removed false, ?_, h, ?_⟩
    · simp only [hindex, Option.bind_eq_bind, Option.bind_some]
      rfl
    · rwa [hview, ← hview, Function.update_eq_self, hview] at hmove
  · obtain ⟨links', hremove, hcoherent, -, hview'⟩ := removeSlot_spec h.table h.timed hrow
    refine ⟨links', .removed true, ?_, hcoherent, ?_⟩
    · simp only [hindex, hremove, Option.bind_eq_bind, Option.bind_some]
      rfl
    · rwa [hview, ← hview'] at hmove

/-- A due row of a kind is looked for: the table stays, and the answer is as the map has it. -/
theorem firstDue_spec {links : Links} (h : Coherent links) (now : ℕ) (predicate : LinkPhase → Bool) :
    ∃ table found, links.table.firstDueTimeoutMatching now predicate = some (table, found) ∧
      Coherent { links with table := table } ∧ table.rows = links.table.rows ∧
      (∀ slot, found = some slot → ∃ row, table.rows[slot]? = some row ∧
        links.view row.linkId = some row ∧ row.DueAt now ∧ predicate row.phase = true) ∧
      (found = none → ∀ linkId row, links.view linkId = some row → row.DueAt now →
        predicate row.phase = false) := by
  obtain ⟨table, found, hrun, hrows, hwell, hsome, hnone⟩ :=
    h.table.firstDueTimeoutMatching now predicate
  refine ⟨table, found, hrun, ⟨hwell, ?_, ?_⟩, hrows, ?_, ?_⟩
  · rw [hrows]
    exact h.timed
  · rw [hrows]
    exact h.earliest
  · intro slot hslot
    obtain ⟨row, hrow, hdue, hpredicate⟩ := hsome slot hslot
    exact ⟨row, by rw [hrows, hrow],
      (viewOf_iff h.table.unique).2 ⟨List.mem_of_getElem? hrow, rfl⟩, hdue, hpredicate⟩
  · intro hfound linkId row hview hdue
    exact hnone hfound row ((viewOf_iff h.table.unique).1 hview).1 hdue

theorem popStale_does {links : Links} (h : Coherent links) (now : ℕ) :
    Does links (.popStale now) ((links.popStale now).map fun r => (r.1, .stale r.2)) := by
  obtain ⟨table, found, hrun, hcoherent, hrows, hsome, hnone⟩ := firstDue_spec h now (isStale now)
  have hview : ({ links with table := table } : Links).view = links.view := by
    rw [view, view, hrows]
  rw [popStale, hrun]
  cases found with
  | none =>
      refine ⟨{ links with table := table }, .stale none, rfl, hcoherent, ?_⟩
      rw [hview]
      exact .noneStale (hnone rfl)
  | some slot =>
      obtain ⟨row, hrow, hin, hdue, hstale⟩ := hsome slot rfl
      refine ⟨{ links with table := table }, .stale (some row.linkId), ?_, hcoherent, ?_⟩
      · simp only [Option.bind_eq_bind, Option.bind_some, hrow]
        rfl
      · rw [hview]
        exact .stale hin hdue hstale

theorem popDueKeepalive_does {links : Links} (h : Coherent links) (now : ℕ) :
    Does links (.popDueKeepalive now)
      ((links.popDueKeepalive now).map fun r => (r.1, .keepalive r.2)) := by
  obtain ⟨table, found, hrun, hcoherent, hrows, hsome, hnone⟩ :=
    firstDue_spec h now (owesKeepalive now)
  have hview : ({ links with table := table } : Links).view = links.view := by
    rw [view, view, hrows]
  rw [popDueKeepalive, hrun]
  cases found with
  | none =>
      refine ⟨{ links with table := table }, .keepalive none, rfl, hcoherent, ?_⟩
      rw [hview]
      exact .noneKept (hnone rfl)
  | some slot =>
      obtain ⟨row, hrow, hin, hdue, howes⟩ := hsome slot rfl
      simp only [Option.bind_eq_bind, Option.bind_some, hrow]
      cases hphase : row.phase with
      | pending other | handshake other =>
          rw [hphase] at howes
          cases howes
      | active link =>
          have hinitiator : link.isInitiator = true := by
            rw [hphase, owesKeepalive, Bool.and_eq_true, Bool.and_eq_true] at howes
            exact howes.1.1
          obtain ⟨-, hmin, hmax⟩ := hcoherent.keepalive (List.mem_of_getElem? hrow) hphase
          obtain ⟨links', hset, hcoherent', hview'⟩ := setActive_spec hcoherent.table
            hcoherent.timed hrow (keptAlive link now) hmin hmax
          refine ⟨links', .keepalive (some ⟨row.linkId, link.attachedInterface⟩), ?_, hcoherent', ?_⟩
          · simp only [if_pos hinitiator, hset, Option.bind_some]
            rfl
          · rw [hview', hview]
            exact .keepalive hin hdue hphase howes

theorem overdueOf_isSome (row : LinkRow) :
    (overdueOf row).isSome = isUnestablished row.phase := by
  rw [overdueOf]
  cases row.phase <;> rfl

theorem popOverdue_does {links : Links} (h : Coherent links) (now : ℕ) :
    Does links (.popOverdue now) ((links.popOverdue now).map fun r => (r.1, .overdue r.2)) := by
  obtain ⟨table, found, hrun, hcoherent, hrows, hsome, hnone⟩ :=
    firstDue_spec h now isUnestablished
  have hview : ({ links with table := table } : Links).view = links.view := by
    rw [view, view, hrows]
  rw [popOverdue, hrun]
  cases found with
  | none =>
      refine ⟨{ links with table := table }, .overdue none, rfl, hcoherent, ?_⟩
      rw [hview]
      exact .noneOverdue (hnone rfl)
  | some slot =>
      obtain ⟨row, hrow, hin, hdue, hkind⟩ := hsome slot rfl
      rw [← overdueOf_isSome, Option.isSome_iff_exists] at hkind
      obtain ⟨overdue, hoverdue⟩ := hkind
      obtain ⟨links', hremove, hcoherent', -, hview'⟩ :=
        removeSlot_spec hcoherent.table hcoherent.timed hrow
      refine ⟨links', .overdue (some overdue), ?_, hcoherent', ?_⟩
      · simp only [Option.bind_eq_bind, Option.bind_some, hrow, hoverdue, hremove]
        rfl
      · rw [hview', hview]
        exact .overdue hin hdue hoverdue

/-! ## Runs -/

/-- Row numbers are `u32`. -/
def Room (links : Links) (_ : LinksOp) : Prop :=
  links.table.rows.length < HeapLemireIndex.maxRows

instance (links : Links) (op : LinksOp) : Decidable (Room links op) :=
  inferInstanceAs (Decidable (_ < _))

theorem run_does {links : Links} (h : Coherent links) {op : LinksOp} (hroom : Room links op) :
    Does links op (links.run op) := by
  cases op with
  | trackInitiated link => exact track_does h hroom rfl rfl
  | trackResponding link => exact track_does h hroom rfl rfl
  | activateInitiated linkId key activation now =>
      exact activateInitiated_does h linkId key activation now
  | activateResponding linkId rtt attachedInterface now =>
      exact activateResponding_does h linkId rtt attachedInterface now
  | noteInbound linkId now => exact noteActive_does h rfl fun _ => rfl
  | noteOutbound linkId now => exact noteActive_does h rfl fun _ => rfl
  | noteKeepaliveSent linkId now => exact noteActive_does h rfl fun _ => rfl
  | noteIdentified linkId identity => exact noteIdentified_does h linkId identity
  | remove linkId => exact remove_does h linkId
  | popStale now => exact popStale_does h now
  | popDueKeepalive now => exact popDueKeepalive_does h now
  | popOverdue now => exact popOverdue_does h now

def machine : Lib.Machine Links LinksOp where
  init := default
  step links op := (links.run op).map Prod.fst

theorem coherent_of_reachable {links : Links} (h : machine.Reachable Room links) :
    Coherent links := by
  refine Lib.Machine.Reachable.invariant (I := Coherent) coherent_default ?_ h
  intro links op next hcoherent hroom hstep
  obtain ⟨links', answer, hrun, hcoherent', -⟩ := run_does hcoherent hroom
  change (links.run op).map Prod.fst = some next at hstep
  rw [hrun, Option.map_some, Option.some.injEq] at hstep
  exact hstep ▸ hcoherent'

/-- The deadlines of a map. -/
def dueTimes (map : LinkMap) : Set ℕ :=
  fun time => ∃ linkId row, map linkId = some row ∧ row.timeoutAt = some time

theorem Coherent.earliest_iff {links : Links} (h : Coherent links) (time : ℕ) :
    links.earliestTimeout = some time ↔ IsLeast (dueTimes links.view) time := by
  have hmem : ∀ t, t ∈ links.table.rows.filterMap LinkRow.timeoutAt ↔ dueTimes links.view t := by
    intro t
    rw [List.mem_filterMap]
    constructor
    · rintro ⟨row, hrow, ht⟩
      exact ⟨row.linkId, row, (viewOf_iff h.table.unique).2 ⟨hrow, rfl⟩, ht⟩
    · rintro ⟨linkId, row, hrow, ht⟩
      exact ⟨row, ((viewOf_iff h.table.unique).1 hrow).1, ht⟩
  rw [h.earliest, List.min?_eq_some_iff, hmem]
  refine and_congr_right fun _ => ⟨fun hle t ht => hle t ((hmem t).2 ht), fun hle t ht => ?_⟩
  exact hle ((hmem t).1 ht)

theorem Coherent.phaseFor {links : Links} (h : Coherent links) (linkId : LinkId) :
    links.phaseFor linkId = some ((links.view linkId).map LinkRow.phase) := by
  rw [Links.phaseFor]
  rcases h.find linkId with ⟨hindex, hview⟩ | ⟨slot, row, hindex, hrow, -, hview⟩
  · rw [hindex, hview]
    rfl
  · rw [hindex, hview]
    simp only [Option.bind_eq_bind, Option.bind_some, hrow]
    rfl

end Links

open Links in
/-- In every run of operations each of them ends, and does to the map of the links, and answers, what
it is for; `phase_for` reads the map, the cached `earliest_timeout` is its least deadline, and every
row has the deadline of its phase. -/
theorem links_refine {links : Links} (h : machine.Reachable Room links) :
    (∀ op, Room links op → ∃ links' answer, links.run op = some (links', answer) ∧
      Moves links.view op links'.view answer) ∧
    (∀ linkId, links.phaseFor linkId = some ((links.view linkId).map LinkRow.phase)) ∧
    (∀ time, links.earliestTimeout = some time ↔ IsLeast (dueTimes links.view) time) ∧
    ∀ linkId row, links.view linkId = some row → row.linkId = linkId ∧ row.Timed := by
  have hcoherent := coherent_of_reachable h
  refine ⟨fun op hroom => ?_, hcoherent.phaseFor, hcoherent.earliest_iff, fun linkId row hrow => ?_⟩
  · obtain ⟨links', answer, hrun, -, hmoves⟩ := run_does hcoherent hroom
    exact ⟨links', answer, hrun, hmoves⟩
  · obtain ⟨hmem, hid⟩ := (viewOf_iff hcoherent.table.unique).1 hrow
    exact ⟨hid, hcoherent.timed row hmem⟩

open Links in
theorem links_refine_run :
    ∃ links, machine.Reachable Room links ∧ links.table.rows.length = 2 ∧
      IsLeast (dueTimes links.view) 9000 := by
  let linkId : UInt8 → LinkId := fun byte => List.Vector.replicate 16 byte
  let pending : PendingLink := ⟨9, 1, .aes256Cbc, List.Vector.replicate 32 3,
    List.Vector.replicate 32 4, 1000, 7⟩
  let activation : LinkActivation := ⟨1, 20, 500, List.Vector.replicate 8 1,
    List.Vector.replicate 32 5⟩
  have hrun : (machine.runWhile Room machine.init
      [.trackInitiated ⟨linkId 1, pending, 4000⟩, .trackInitiated ⟨linkId 2, pending, 3000⟩,
        .trackInitiated ⟨linkId 3, pending, 9000⟩, .popOverdue 3500,
        .activateInitiated (linkId 1) ⟨List.Vector.replicate 64 6⟩ activation 5000,
        .noteInbound (linkId 1) 6000]).any
      (fun links => decide (links.earliestTimeout = some 9000 ∧ links.table.rows.length = 2)) =
        true := by decide
  obtain ⟨links, h, hlinks⟩ := Lib.Machine.exists_reachable_of_runWhile hrun
  obtain ⟨hearliest, hrows⟩ := of_decide_eq_true hlinks
  exact ⟨links, h, hrows, ((links_refine h).2.2.1 9000).1 hearliest⟩

end Wire
end SvenBridge
