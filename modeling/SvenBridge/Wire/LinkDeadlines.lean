import SvenBridge.Wire.Links
import Mathlib.Data.List.Perm.Basic
import Mathlib.Data.List.Nodup

/-!
# LinkDeadlines — what happens to links when time has passed

What `fire_due_link_deadlines` of `engine/deadlines/mod.rs` does to a node's own links: requests
that were never answered are given up, silent sessions are closed, and keepalives are sent.  Each of
the three is a loop over the timers of `Links`.  The links a node carries for others are in another
table, with a loop of their own, and what a link says of its route goes to the routing table; both
are left out.  This file contains

* `writeKeepalive`, `writeLinkClose` and `writeOwedLinkClose` (`routing/links/maintenance.rs`);
* the three loops, where `none` is a loop that does not end, and `fireDueOwnLinks`, the one after the
  other;
* `fireDueOwnLinks_settles`: they end, do to each link what its row asks for, report each link once,
  and leave none that is due.
-/

namespace SvenBridge
namespace Wire

open Lib

/-! ## Packets -/

def keepaliveRequest : UInt8 := 0xFF

def linkFrameHeader (linkId : LinkId) (context : WireContext) : WirePacketHeader :=
  linkPacketHeader linkId .data context

def writeKeepalive (linkId : LinkId) (byte : UInt8) (bufLen : ℕ) :
    Except WireError (List UInt8) := do
  let header ← (linkFrameHeader linkId .keepAlive).write bufLen
  if bufLen < header.length + 1 then throw .bufferTooShort else return header ++ [byte]

def writeLinkClose (crypto : TokenCrypto) (linkId : LinkId) (linkKey : LinkKey) (iv : TokenBlock)
    (bufLen : ℕ) : Except WireError (List UInt8) := do
  let header ← (linkFrameHeader linkId .linkClose).write bufLen
  match linkKey.seal crypto iv linkId.toList (bufLen - header.length) with
  | none => throw .bufferTooShort
  | some sealed => return header ++ sealed

structure LinkCloseDispatch where
  bytes : List UInt8
  fireOn : Option InterfaceId

inductive WriteLinkCloseError
  | noSuchLink
  | serialize
  deriving DecidableEq

/-- What `write_owed_link_close` does to the links: the close is sealed, then the link is
forgotten. -/
def Links.writeOwedLinkClose (crypto : TokenCrypto) (links : Links) (linkId : LinkId)
    (iv : TokenBlock) (bufLen : ℕ) :
    Option (Links × Except WriteLinkCloseError LinkCloseDispatch) := do
  let phase ← links.phaseFor linkId
  let owner : Option (LinkKey × Option InterfaceId) :=
    match phase with
    | some (.active link) => some (link.key, some link.attachedInterface)
    | some (.handshake link) => some (link.key, none)
    | some (.pending _) | none => none
  match owner with
  | none => return (links, .error .noSuchLink)
  | some (key, fireOn) =>
      match writeLinkClose crypto linkId key iv bufLen with
      | .error _ => return (links, .error .serialize)
      | .ok bytes =>
          let (links, _) ← links.remove linkId
          return (links, .ok ⟨bytes, fireOn⟩)

/-! ## The loops -/

/-- What the engine tells its host. -/
inductive LinkReaction
  /-- `Settlement::EstablishLink(Err(Timeout))` -/
  | establishTimedOut (commandId : ℕ)
  | send (target : InterfaceId) (bytes : List UInt8)
  /-- `Journaled::LinkClosed` with the reason `Timeout` -/
  | linkClosed (linkId : LinkId)
  deriving DecidableEq

/-- What the loops are run with: the primitives, the blocks that `fill_entropy` gives out to them one
after the other, and `is_egress_eligible`. -/
structure DeadlineHost where
  crypto : TokenCrypto
  entropy : ℕ → TokenBlock
  isEgressEligible : InterfaceId → Bool

namespace DeadlineHost

def sendTo (host : DeadlineHost) (target : InterfaceId) (bytes : List UInt8) : List LinkReaction :=
  if host.isEgressEligible target then [.send target bytes] else []

def expireUnestablishedLinks (now : ℕ) : ℕ → Links → Option (Links × List LinkReaction)
  | 0, _ => none
  | fuel + 1, links => do
      let (links, overdue) ← links.popOverdue now
      match overdue with
      | none => return (links, [])
      | some (.initiated _ commandId _ _) =>
          let (links, rest) ← expireUnestablishedLinks now fuel links
          return (links, .establishTimedOut commandId :: rest)
      | some (.responding _) => expireUnestablishedLinks now fuel links

/-- `drawn` counts the blocks of entropy. -/
def closeStaleLinks (host : DeadlineHost) (now : ℕ) :
    ℕ → ℕ → Links → Option (Links × List LinkReaction)
  | 0, _, _ => none
  | fuel + 1, drawn, links => do
      let (links, stale) ← links.popStale now
      match stale with
      | none => return (links, [])
      | some linkId =>
          let (links, dispatch) ←
            links.writeOwedLinkClose host.crypto linkId (host.entropy drawn) broadcastMtu
          let (links, rest) ← closeStaleLinks host now fuel (drawn + 1) links
          match dispatch with
          | .error _ => return (links, rest)
          | .ok dispatch =>
              let sent := match dispatch.fireOn with
                | some target => host.sendTo target dispatch.bytes
                | none => []
              return (links, sent ++ .linkClosed linkId :: rest)

def sendDueKeepalives (host : DeadlineHost) (now : ℕ) : ℕ → Links → Option (Links × List LinkReaction)
  | 0, _ => none
  | fuel + 1, links => do
      let (links, due) ← links.popDueKeepalive now
      match due with
      | none => return (links, [])
      | some due =>
          let (links, rest) ← sendDueKeepalives host now fuel links
          match writeKeepalive due.linkId keepaliveRequest broadcastMtu with
          | .error _ => return (links, rest)
          | .ok bytes => return (links, host.sendTo due.attachedInterface bytes ++ rest)

/-- The three loops over `self.links` in `fire_due_link_deadlines`: every row is visited once at
most, and one more turn finds none. -/
def fireDueOwnLinks (host : DeadlineHost) (now : ℕ) (links : Links) :
    Option (Links × List LinkReaction) := do
  let (links, expired) ← expireUnestablishedLinks now (links.table.rows.length + 1) links
  let (links, closed) ← host.closeStaleLinks now (links.table.rows.length + 1) 0 links
  let (links, kept) ← host.sendDueKeepalives now (links.table.rows.length + 1) links
  return (links, expired ++ closed ++ kept)

end DeadlineHost

/-! ## What a row asks for -/

namespace LinkRow

def isDueAt (row : LinkRow) (now : ℕ) : Bool :=
  row.timeoutAt.any fun time => decide (time ≤ now)

/-- A request, or a handshake, that was not answered in time. -/
def expires (now : ℕ) (row : LinkRow) : Bool :=
  Links.isUnestablished row.phase && row.isDueAt now

/-- A session that has been silent for too long. -/
def closes (now : ℕ) (row : LinkRow) : Bool :=
  Links.isStale now row.phase

/-- A session whose initiator owes a sign of life. -/
def keeps (now : ℕ) (row : LinkRow) : Bool :=
  Links.owesKeepalive now row.phase

/-- The row with its sign of life sent. -/
def kept (now : ℕ) (row : LinkRow) : LinkRow :=
  match row.phase with
  | .active link => if row.keeps now then activeRow row.linkId (Links.keptAlive link now) else row
  | .pending _ | .handshake _ => row

def expiry (row : LinkRow) : List LinkReaction :=
  match row.phase with
  | .pending link => [.establishTimedOut link.commandId]
  | .handshake _ | .active _ => []

def closing (host : DeadlineHost) (iv : TokenBlock) (row : LinkRow) : List LinkReaction :=
  match row.phase with
  | .active link =>
      host.sendTo link.attachedInterface ((linkFrameHeader row.linkId .linkClose).bytes ++
        sealedToken host.crypto link.key.tokenKey iv row.linkId.toList) ++
      [.linkClosed row.linkId]
  | .pending _ | .handshake _ => []

def keeping (host : DeadlineHost) (row : LinkRow) : List LinkReaction :=
  match row.phase with
  | .active link =>
      host.sendTo link.attachedInterface
        ((linkFrameHeader row.linkId .keepAlive).bytes ++ [keepaliveRequest])
  | .pending _ | .handshake _ => []

/-- What becomes of a row in a pass. -/
def settled (now : ℕ) (row : LinkRow) : Option LinkRow :=
  if row.expires now || row.closes now then none else some (row.kept now)

theorem isDueAt_iff {row : LinkRow} {now : ℕ} : row.isDueAt now = true ↔ row.DueAt now := by
  rw [isDueAt, Option.any_eq_true]
  simp only [decide_eq_true_eq, DueAt]

end LinkRow

/-! ## One turn of a loop -/

open Links (Coherent)

theorem mem_rows_iff {links : Links} (h : Coherent links) {row : LinkRow} :
    row ∈ links.table.rows ↔ links.view row.linkId = some row := by
  rw [Links.view, viewOf_iff h.table.unique]
  exact ⟨fun hrow => ⟨hrow, rfl⟩, fun hrow => hrow.1⟩

/-- The map says which rows there are. -/
theorem rows_perm {links links' : Links} (h : Coherent links) (h' : Coherent links')
    (hview : links'.view = links.view) : links'.table.rows.Perm links.table.rows := by
  refine (List.perm_ext_iff_of_nodup h'.table.unique.of_map h.table.unique.of_map).2 fun row => ?_
  rw [mem_rows_iff h', mem_rows_iff h, hview]

/-- Two states of the links that differ at one link, as rows in no order. -/
theorem rows_perm_of_update {links links' : Links} (h : Coherent links) (h' : Coherent links')
    {linkId : LinkId} {row : LinkRow} {entry : Option LinkRow} (hrow : links.view linkId = some row)
    (hentry : ∀ r, entry = some r → r.linkId = linkId)
    (hview : links'.view = Function.update links.view linkId entry) :
    ∃ rest, links.table.rows.Perm (row :: rest) ∧
      links'.table.rows.Perm (entry.toList ++ rest) := by
  have hnodup : links.table.rows.Nodup := h.table.unique.of_map
  have hnodup' : links'.table.rows.Nodup := h'.table.unique.of_map
  obtain ⟨hmem, hid⟩ := (viewOf_iff h.table.unique).1 hrow
  let rest := links.table.rows.filter fun r => decide (r.linkId ≠ linkId)
  have hother : ∀ r, r ∈ rest ↔ r ∈ links.table.rows ∧ r.linkId ≠ linkId := by
    intro r
    rw [List.mem_filter, decide_eq_true_eq]
  have hrest : rest.Nodup := hnodup.filter _
  have hnew : ∀ r : LinkRow, r.linkId = linkId → r ∉ rest := by
    intro r hr
    rw [hother]
    exact fun hr' => hr'.2 hr
  refine ⟨rest, ?_, ?_⟩
  · refine (List.perm_ext_iff_of_nodup hnodup (List.nodup_cons.2 ⟨hnew row hid, hrest⟩)).2
      fun r => ?_
    rw [List.mem_cons, hother]
    constructor
    · intro hr
      by_cases heq : r.linkId = linkId
      · have hsame := (mem_rows_iff h).1 hr
        rw [heq, hrow, Option.some.injEq] at hsame
        exact .inl hsame.symm
      · exact .inr ⟨hr, heq⟩
    · rintro (rfl | hr)
      · exact hmem
      · exact hr.1
  · have hboth : (entry.toList ++ rest).Nodup := by
      cases entry with
      | none => exact hrest
      | some r => exact List.nodup_cons.2 ⟨hnew r (hentry r rfl), hrest⟩
    refine (List.perm_ext_iff_of_nodup hnodup' hboth).2 fun r => ?_
    rw [mem_rows_iff h', hview, List.mem_append, Option.mem_toList, hother, mem_rows_iff h]
    by_cases heq : r.linkId = linkId
    · rw [heq, Function.update_self]
      exact ⟨.inl, fun hr => hr.resolve_right fun hr => hr.2 rfl⟩
    · rw [Function.update_of_ne heq]
      exact ⟨fun hr => .inr ⟨hr, heq⟩, fun hr => (hr.resolve_left fun hr => heq (hentry r hr)).1⟩

/-- A due row of a kind, or that there is none. -/
theorem isDueAt_false {links : Links} (h : Coherent links) {now : ℕ} {predicate : LinkPhase → Bool}
    (hnone : ∀ linkId row, links.view linkId = some row → row.DueAt now →
      predicate row.phase = false) :
    ∀ row ∈ links.table.rows, (predicate row.phase && row.isDueAt now) = false := by
  intro row hrow
  cases hdue : row.isDueAt now with
  | false => rw [Bool.and_false]
  | true =>
      rw [hnone row.linkId row ((mem_rows_iff h).1 hrow) (LinkRow.isDueAt_iff.1 hdue)]
      rfl

theorem popOverdue_spec {links : Links} (h : Coherent links) (now : ℕ) :
    ∃ links' overdue, links.popOverdue now = some (links', overdue) ∧ Coherent links' ∧
      ((overdue = none ∧ links'.table.rows.Perm links.table.rows ∧
          ∀ row ∈ links.table.rows, row.expires now = false) ∨
        ∃ row rest link, overdue = some link ∧ Links.overdueOf row = some link ∧
          row.expires now = true ∧ links.table.rows.Perm (row :: rest) ∧
          links'.table.rows.Perm rest) := by
  obtain ⟨links', answer, hrun, hcoherent, hmoves⟩ := Links.popOverdue_does h now
  rw [Option.map_eq_some_iff] at hrun
  obtain ⟨⟨next, overdue⟩, hpop, hresult⟩ := hrun
  obtain ⟨rfl, rfl⟩ := Prod.mk.inj hresult
  refine ⟨next, overdue, hpop, hcoherent, ?_⟩
  rcases hmoves.popOverdue_inv with ⟨hoverdue, hview, hnone⟩ | hsome
  · exact .inl ⟨hoverdue, rows_perm h hcoherent hview, isDueAt_false h hnone⟩
  · obtain ⟨linkId, row, link, hoverdue, hrow, hdue, hlink, hview⟩ := hsome
    obtain ⟨rest, hperm, hperm'⟩ :=
      rows_perm_of_update h hcoherent hrow (by rintro r ⟨⟩) hview
    refine .inr ⟨row, rest, link, hoverdue, hlink, ?_, hperm, hperm'⟩
    rw [LinkRow.expires, LinkRow.isDueAt_iff.2 hdue, Bool.and_true, ← Links.overdueOf_isSome, hlink]
    rfl

/-- A row that a loop takes out, and what the rest of the loop takes out. -/
theorem perm_taken {rows rest left taken : List LinkRow} {row : LinkRow} {takes : LinkRow → Bool}
    (hrow : takes row = true) (hperm : rows.Perm (row :: rest)) (hleft : left.Perm rest)
    (htaken : taken.Perm (left.filter takes)) :
    (row :: taken).Perm (rows.filter takes) := by
  have hall : (rows.filter takes).Perm (row :: rest.filter takes) := by
    have hfilter := hperm.filter takes
    rwa [List.filter_cons_of_pos hrow] at hfilter
  exact ((htaken.trans (hleft.filter takes)).cons row).trans hall.symm

/-- What a loop leaves. -/
theorem perm_left {rows rest left final : List LinkRow} {row : LinkRow} {takes : LinkRow → Bool}
    (hrow : takes row = true) (hperm : rows.Perm (row :: rest)) (hleft : left.Perm rest)
    (hfinal : final.Perm (left.filter fun row => !takes row)) :
    final.Perm (rows.filter fun row => !takes row) := by
  have hall : (rows.filter fun row => !takes row).Perm (rest.filter fun row => !takes row) := by
    have hfilter := hperm.filter fun row => !takes row
    rwa [List.filter_cons_of_neg (by simp [hrow])] at hfilter
  exact (hfinal.trans (hleft.filter _)).trans hall.symm

theorem perm_none_taken {rows : List LinkRow} {takes : LinkRow → Bool}
    (h : ∀ row ∈ rows, takes row = false) : [].Perm (rows.filter takes) := by
  have hempty : rows.filter takes = [] := by
    rw [List.filter_eq_nil_iff]
    intro row hrow
    rw [h row hrow]
    exact Bool.false_ne_true
  rw [hempty]

theorem perm_all_left {rows left : List LinkRow} {takes : LinkRow → Bool}
    (h : ∀ row ∈ rows, takes row = false) (hleft : left.Perm rows) :
    left.Perm (rows.filter fun row => !takes row) := by
  have hall : rows.filter (fun row => !takes row) = rows := by
    rw [List.filter_eq_self]
    intro row hrow
    rw [h row hrow]
    rfl
  rwa [hall]

/-- A session that is closed is due: its deadline is not after its end. -/
theorem isDueAt_of_closes {row : LinkRow} {now : ℕ} (htimed : row.Timed)
    (hcloses : row.closes now = true) : row.isDueAt now = true := by
  rw [LinkRow.closes] at hcloses
  rw [LinkRow.Timed] at htimed
  cases hphase : row.phase with
  | pending _ | handshake _ =>
      rw [hphase] at hcloses
      cases hcloses
  | active link =>
      rw [hphase, Links.isStale, decide_eq_true_eq] at hcloses
      rw [hphase] at htimed
      rw [LinkRow.isDueAt, htimed.1, Option.any_some, decide_eq_true_eq]
      exact le_trans (ActiveLink.deadline_le_teardownAt link) hcloses

/-- So is one that owes a keepalive. -/
theorem isDueAt_of_keeps {row : LinkRow} {now : ℕ} (htimed : row.Timed)
    (hkeeps : row.keeps now = true) : row.isDueAt now = true := by
  rw [LinkRow.keeps] at hkeeps
  rw [LinkRow.Timed] at htimed
  cases hphase : row.phase with
  | pending _ | handshake _ =>
      rw [hphase] at hkeeps
      cases hkeeps
  | active link =>
      rw [hphase, Links.owesKeepalive, Bool.and_eq_true, Bool.and_eq_true, decide_eq_true_eq,
        decide_eq_true_eq] at hkeeps
      obtain ⟨⟨hinitiator, hsend⟩, hstale⟩ := hkeeps
      rw [hphase] at htimed
      rw [LinkRow.isDueAt, htimed.1, Option.any_some, decide_eq_true_eq,
        ActiveLink.deadline_of_initiator hinitiator, if_pos hstale]
      exact hsend

theorem popStale_spec {links : Links} (h : Coherent links) (now : ℕ) :
    ∃ links' stale, links.popStale now = some (links', stale) ∧ Coherent links' ∧
      links'.view = links.view ∧
      ((stale = none ∧ ∀ row ∈ links.table.rows, row.closes now = false) ∨
        ∃ row link, stale = some row.linkId ∧ links.view row.linkId = some row ∧
          row.phase = .active link ∧ row.closes now = true) := by
  obtain ⟨links', answer, hrun, hcoherent, hmoves⟩ := Links.popStale_does h now
  rw [Option.map_eq_some_iff] at hrun
  obtain ⟨⟨next, stale⟩, hpop, hresult⟩ := hrun
  obtain ⟨rfl, rfl⟩ := Prod.mk.inj hresult
  obtain ⟨hview, hcase⟩ := hmoves.popStale_inv
  refine ⟨next, stale, hpop, hcoherent, hview, ?_⟩
  rcases hcase with ⟨hstale, hnone⟩ | ⟨linkId, row, hstale, hrow, hcloses⟩
  · refine .inl ⟨hstale, fun row hrow => ?_⟩
    have hnot := isDueAt_false h hnone row hrow
    cases hcloses : row.closes now with
    | false => rfl
    | true =>
        rw [isDueAt_of_closes (h.timed row hrow) hcloses, Bool.and_true] at hnot
        exact hcloses.symm.trans hnot
  · obtain ⟨hmem, rfl⟩ := (viewOf_iff h.table.unique).1 hrow
    cases hphase : row.phase with
    | pending _ | handshake _ =>
        rw [hphase] at hcloses
        cases hcloses
    | active link => exact .inr ⟨row, link, hstale, hrow, hphase, hcloses⟩

/-- A close fits a packet of the smallest interface. -/
theorem writeLinkClose_eq (crypto : TokenCrypto) (linkId : LinkId) (linkKey : LinkKey)
    (iv : TokenBlock) :
    writeLinkClose crypto linkId linkKey iv broadcastMtu =
      .ok ((linkFrameHeader linkId .linkClose).bytes ++
        sealedToken crypto linkKey.tokenKey iv linkId.toList) := by
  have hlen : (linkFrameHeader linkId .linkClose).bytes.length = headerMinLen :=
    length_linkPacketHeader ..
  have hwrite : (linkFrameHeader linkId .linkClose).write broadcastMtu =
      .ok (linkFrameHeader linkId .linkClose).bytes := by
    rw [WirePacketHeader.write_eq, hlen]
    exact if_pos (by decide)
  have hseal : linkKey.seal crypto iv linkId.toList (broadcastMtu - headerMinLen) =
      some (sealedToken crypto linkKey.tokenKey iv linkId.toList) := by
    rw [LinkKey.seal, tokenSeal_eq_some_iff]
    refine ⟨?_, rfl⟩
    rw [List.Vector.toList_length]
    decide
  rw [writeLinkClose, hwrite]
  change (match linkKey.seal crypto iv linkId.toList
    (broadcastMtu - (linkFrameHeader linkId .linkClose).bytes.length) with
    | none => throw WireError.bufferTooShort
    | some sealed => pure ((linkFrameHeader linkId .linkClose).bytes ++ sealed)) = _
  rw [hlen, hseal]
  rfl

theorem writeKeepalive_eq (linkId : LinkId) (byte : UInt8) :
    writeKeepalive linkId byte broadcastMtu =
      .ok ((linkFrameHeader linkId .keepAlive).bytes ++ [byte]) := by
  have hlen : (linkFrameHeader linkId .keepAlive).bytes.length = headerMinLen :=
    length_linkPacketHeader ..
  have hwrite : (linkFrameHeader linkId .keepAlive).write broadcastMtu =
      .ok (linkFrameHeader linkId .keepAlive).bytes := by
    rw [WirePacketHeader.write_eq, hlen]
    exact if_pos (by decide)
  rw [writeKeepalive, hwrite]
  change (if broadcastMtu < (linkFrameHeader linkId .keepAlive).bytes.length + 1 then
    throw WireError.bufferTooShort
    else pure ((linkFrameHeader linkId .keepAlive).bytes ++ [byte])) = _
  rw [hlen]
  exact if_neg (by decide)

/-- A session is closed: its packet is written, and its row is gone. -/
theorem writeOwedLinkClose_spec (crypto : TokenCrypto) {links : Links} (h : Coherent links)
    {row : LinkRow} {link : ActiveLink} (hrow : links.view row.linkId = some row)
    (hphase : row.phase = .active link) (iv : TokenBlock) :
    ∃ links', links.writeOwedLinkClose crypto row.linkId iv broadcastMtu =
        some (links', .ok ⟨(linkFrameHeader row.linkId .linkClose).bytes ++
          sealedToken crypto link.key.tokenKey iv row.linkId.toList,
          some link.attachedInterface⟩) ∧
      Coherent links' ∧ ∃ rest, links.table.rows.Perm (row :: rest) ∧
        links'.table.rows.Perm rest := by
  obtain ⟨links', answer, hrun, hcoherent, hmoves⟩ := Links.remove_does h row.linkId
  rw [Option.map_eq_some_iff] at hrun
  obtain ⟨⟨next, found⟩, hremove, hresult⟩ := hrun
  obtain ⟨rfl, rfl⟩ := Prod.mk.inj hresult
  obtain ⟨rest, hperm, hperm'⟩ :=
    rows_perm_of_update h hcoherent hrow (by rintro r ⟨⟩) hmoves.remove_inv
  refine ⟨next, ?_, hcoherent, rest, hperm, hperm'⟩
  rw [Links.writeOwedLinkClose, h.phaseFor, hrow, Option.map_some, hphase]
  simp only [Option.bind_eq_bind, Option.bind_some, writeLinkClose_eq, hremove]
  rfl

/-- A session that was just kept alive owes nothing, and is not due. -/
theorem keptAlive_later {link : ActiveLink} {now : ℕ} (hmin : keepaliveMinMs ≤ link.keepaliveMs)
    (hmax : link.keepaliveMs ≤ keepaliveMaxMs) (hnow : now + keepaliveMaxMs < 2 ^ 64) :
    now < (Links.keptAlive link now).sendAt := by
  rw [ActiveLink.sendAt, Links.keptAlive, satAdd]
  simp only [keepaliveMinMs, keepaliveMaxMs] at hmin hmax hnow ⊢
  omega

namespace DeadlineHost

/-- Requests and handshakes that were not answered leave, each told once. -/
theorem expireUnestablishedLinks_spec (now : ℕ) : ∀ (fuel : ℕ) (links : Links), Coherent links →
    links.table.rows.length < fuel →
    ∃ (links' : Links) (expired : List LinkRow), expireUnestablishedLinks now fuel links =
        some (links', expired.flatMap LinkRow.expiry) ∧ Coherent links' ∧
      expired.Perm (links.table.rows.filter (LinkRow.expires now)) ∧
      links'.table.rows.Perm (links.table.rows.filter fun row => !row.expires now) := by
  intro fuel
  induction fuel with
  | zero =>
      intro links _ hfuel
      exact absurd hfuel (Nat.not_lt_zero _)
  | succ fuel ih =>
      intro links h hfuel
      obtain ⟨next, overdue, hpop, hcoherent, hcase⟩ := popOverdue_spec h now
      rw [expireUnestablishedLinks, hpop, Option.bind_eq_bind, Option.bind_some]
      rcases hcase with ⟨rfl, hperm, hnone⟩ | ⟨row, rest, link, rfl, hlink, hexpires, hperm, hrest⟩
      · exact ⟨next, [], rfl, hcoherent, perm_none_taken hnone, perm_all_left hnone hperm⟩
      · have hlen := hperm.length_eq
        have hlen' := hrest.length_eq
        rw [List.length_cons] at hlen
        obtain ⟨links', expired, hloop, hcoherent', hexpired, hleft⟩ := ih next hcoherent (by omega)
        refine ⟨links', row :: expired, ?_, hcoherent', perm_taken hexpires hperm hrest hexpired,
          perm_left hexpires hperm hrest hleft⟩
        rw [Links.overdueOf] at hlink
        rw [List.flatMap_cons, LinkRow.expiry]
        cases hphase : row.phase with
        | pending pending =>
            rw [hphase, Option.some.injEq] at hlink
            subst hlink
            simp only [hloop]
            rfl
        | handshake handshake =>
            rw [hphase, Option.some.injEq] at hlink
            subst hlink
            exact hloop
        | active link =>
            rw [hphase] at hlink
            cases hlink

/-- Silent sessions leave, each told once, with a packet for the other end. -/
theorem closeStaleLinks_spec (host : DeadlineHost) (now : ℕ) : ∀ (fuel drawn : ℕ) (links : Links),
    Coherent links → links.table.rows.length < fuel →
    ∃ (links' : Links) (closed : List LinkRow), host.closeStaleLinks now fuel drawn links =
        some (links', (closed.zipIdx drawn).flatMap fun entry =>
          entry.1.closing host (host.entropy entry.2)) ∧ Coherent links' ∧
      closed.Perm (links.table.rows.filter (LinkRow.closes now)) ∧
      links'.table.rows.Perm (links.table.rows.filter fun row => !row.closes now) := by
  intro fuel
  induction fuel with
  | zero =>
      intro drawn links _ hfuel
      exact absurd hfuel (Nat.not_lt_zero _)
  | succ fuel ih =>
      intro drawn links h hfuel
      obtain ⟨popped, stale, hpop, hpopped, hview, hcase⟩ := popStale_spec h now
      have hsame := rows_perm h hpopped hview
      rw [closeStaleLinks, hpop, Option.bind_eq_bind, Option.bind_some]
      rcases hcase with ⟨rfl, hnone⟩ | ⟨row, link, rfl, hrow, hphase, hcloses⟩
      · exact ⟨popped, [], rfl, hpopped, perm_none_taken hnone, perm_all_left hnone hsame⟩
      · rw [← hview] at hrow
        obtain ⟨next, hclose, hcoherent, rest, hperm, hrest⟩ :=
          writeOwedLinkClose_spec host.crypto hpopped hrow hphase (host.entropy drawn)
        have hperm := hsame.symm.trans hperm
        have hlen := hperm.length_eq
        have hlen' := hrest.length_eq
        rw [List.length_cons] at hlen
        obtain ⟨links', closed, hloop, hcoherent', hclosed, hleft⟩ :=
          ih (drawn + 1) next hcoherent (by omega)
        refine ⟨links', row :: closed, ?_, hcoherent', perm_taken hcloses hperm hrest hclosed,
          perm_left hcloses hperm hrest hleft⟩
        simp only [hclose, hloop, Option.bind_eq_bind, Option.bind_some]
        rw [List.zipIdx_cons, List.flatMap_cons, LinkRow.closing, hphase]
        simp only [List.append_assoc, List.singleton_append]
        rfl

end DeadlineHost

theorem popDueKeepalive_spec {links : Links} (h : Coherent links) (now : ℕ) :
    ∃ links' due, links.popDueKeepalive now = some (links', due) ∧ Coherent links' ∧
      ((due = none ∧ links'.table.rows.Perm links.table.rows ∧
          ∀ row ∈ links.table.rows, row.keeps now = false) ∨
        ∃ row rest link, due = some ⟨row.linkId, link.attachedInterface⟩ ∧
          row.phase = .active link ∧ row.keeps now = true ∧ row ∈ links.table.rows ∧
          links.table.rows.Perm (row :: rest) ∧
          links'.table.rows.Perm (row.kept now :: rest)) := by
  obtain ⟨links', answer, hrun, hcoherent, hmoves⟩ := Links.popDueKeepalive_does h now
  rw [Option.map_eq_some_iff] at hrun
  obtain ⟨⟨next, due⟩, hpop, hresult⟩ := hrun
  obtain ⟨rfl, rfl⟩ := Prod.mk.inj hresult
  refine ⟨next, due, hpop, hcoherent, ?_⟩
  rcases hmoves.popDueKeepalive_inv with ⟨hdue, hview, hnone⟩ | hsome
  · refine .inl ⟨hdue, rows_perm h hcoherent hview, fun row hrow => ?_⟩
    have hnot := isDueAt_false h hnone row hrow
    cases hkeeps : row.keeps now with
    | false => rfl
    | true =>
        rw [isDueAt_of_keeps (h.timed row hrow) hkeeps, Bool.and_true] at hnot
        exact hkeeps.symm.trans hnot
  · obtain ⟨linkId, row, link, hdue, hrow, hphase, howes, hview⟩ := hsome
    obtain ⟨hmem, rfl⟩ := (viewOf_iff h.table.unique).1 hrow
    obtain ⟨rest, hperm, hperm'⟩ := rows_perm_of_update h hcoherent hrow (by
      rintro r hr
      rw [← Option.some.inj hr]
      rfl) hview
    refine .inr ⟨row, rest, link, hdue, hphase, howes, hmem, hperm, ?_⟩
    rw [LinkRow.kept, hphase]
    simp only [show row.keeps now = true from howes, if_true]
    exact hperm'

/-- The row of a session that was just kept alive. -/
theorem kept_later {row : LinkRow} {now : ℕ} (htimed : row.Timed) (hkeeps : row.keeps now = true)
    (hnow : now + keepaliveMaxMs < 2 ^ 64) : (row.kept now).keeps now = false := by
  rw [LinkRow.Timed] at htimed
  rw [LinkRow.kept]
  cases hphase : row.phase with
  | pending _ | handshake _ =>
      rw [LinkRow.keeps, hphase] at hkeeps
      cases hkeeps
  | active link =>
      rw [hphase] at htimed
      simp only [if_pos hkeeps]
      have hlater := keptAlive_later htimed.2.1 htimed.2.2 hnow
      rw [LinkRow.keeps, activeRow, Links.owesKeepalive, decide_eq_false (Nat.not_le_of_lt hlater),
        Bool.and_false, Bool.false_and]

theorem kept_of_not_keeps {row : LinkRow} {now : ℕ} (h : row.keeps now = false) :
    row.kept now = row := by
  rw [LinkRow.kept]
  cases hphase : row.phase with
  | pending _ | handshake _ => rfl
  | active link => simp only [h, Bool.false_eq_true, if_false]

namespace DeadlineHost

/-- A keepalive is sent once for each session that owes one. -/
theorem sendDueKeepalives_spec (host : DeadlineHost) {now : ℕ}
    (hnow : now + keepaliveMaxMs < 2 ^ 64) : ∀ (fuel : ℕ) (links : Links), Coherent links →
    (links.table.rows.filter (LinkRow.keeps now)).length < fuel →
    ∃ (links' : Links) (kept : List LinkRow), host.sendDueKeepalives now fuel links =
        some (links', kept.flatMap (LinkRow.keeping host)) ∧ Coherent links' ∧
      kept.Perm (links.table.rows.filter (LinkRow.keeps now)) ∧
      links'.table.rows.Perm (links.table.rows.map (LinkRow.kept now)) := by
  intro fuel
  induction fuel with
  | zero =>
      intro links _ hfuel
      exact absurd hfuel (Nat.not_lt_zero _)
  | succ fuel ih =>
      intro links h hfuel
      obtain ⟨next, due, hpop, hcoherent, hcase⟩ := popDueKeepalive_spec h now
      rw [sendDueKeepalives, hpop, Option.bind_eq_bind, Option.bind_some]
      rcases hcase with ⟨rfl, hperm, hnone⟩ | hsome
      · refine ⟨next, [], rfl, hcoherent, perm_none_taken hnone, ?_⟩
        have hsame : links.table.rows.map (LinkRow.kept now) = links.table.rows := by
          conv_rhs => rw [← List.map_id links.table.rows]
          exact List.map_congr_left fun row hrow => kept_of_not_keeps (hnone row hrow)
        rwa [hsame]
      · obtain ⟨row, rest, link, rfl, hphase, hkeeps, hmem, hperm, hrest⟩ := hsome
        have hlater := kept_later (h.timed row hmem) hkeeps hnow
        have hfilter : (links.table.rows.filter (LinkRow.keeps now)).Perm
            (row :: rest.filter (LinkRow.keeps now)) := by
          have hall := hperm.filter (LinkRow.keeps now)
          rwa [List.filter_cons_of_pos hkeeps] at hall
        have hfilter' : (next.table.rows.filter (LinkRow.keeps now)).Perm
            (rest.filter (LinkRow.keeps now)) := by
          have hall := hrest.filter (LinkRow.keeps now)
          rwa [List.filter_cons_of_neg (by rw [hlater]; exact Bool.false_ne_true)] at hall
        have hlen := hfilter.length_eq
        have hlen' := hfilter'.length_eq
        rw [List.length_cons] at hlen
        obtain ⟨links', kept, hloop, hcoherent', hkept, hleft⟩ := ih next hcoherent (by omega)
        refine ⟨links', row :: kept, ?_, hcoherent', ?_, ?_⟩
        · simp only [hloop, writeKeepalive_eq, Option.bind_eq_bind, Option.bind_some]
          rw [List.flatMap_cons, LinkRow.keeping, hphase]
          rfl
        · exact ((hkept.trans hfilter').cons row).trans hfilter.symm
        · have hmap := hrest.map (LinkRow.kept now)
          rw [List.map_cons, kept_of_not_keeps hlater] at hmap
          exact (hleft.trans hmap).trans (hperm.map (LinkRow.kept now)).symm

end DeadlineHost

/-! ## The pass -/

theorem filterMap_settled (now : ℕ) (rows : List LinkRow) :
    rows.filterMap (LinkRow.settled now) =
      ((rows.filter fun row => !row.expires now).filter fun row => !row.closes now).map
        (LinkRow.kept now) := by
  induction rows with
  | nil => rfl
  | cons row rows ih =>
      rw [List.filterMap_cons, LinkRow.settled]
      cases hexpires : row.expires now with
      | true => simp only [Bool.true_or, if_true, List.filter_cons, hexpires, Bool.not_true,
          Bool.false_eq_true, if_false, ih]
      | false =>
          cases hcloses : row.closes now with
          | true => simp only [Bool.or_true, if_true, List.filter_cons, hexpires, hcloses,
              Bool.not_true, Bool.not_false, Bool.false_eq_true, if_false, ih]
          | false => simp only [Bool.or_false, if_true, List.filter_cons, hexpires, hcloses,
              Bool.not_false, Bool.false_eq_true, if_false, ih, List.map_cons]

/-- Only sessions are closed and kept alive. -/
theorem not_expires_of_active {row : LinkRow} {now : ℕ}
    (h : row.closes now = true ∨ row.keeps now = true) : row.expires now = false := by
  rw [LinkRow.closes, LinkRow.keeps] at h
  rw [LinkRow.expires]
  cases hphase : row.phase with
  | pending _ | handshake _ =>
      rw [hphase] at h
      rcases h with h | h <;> cases h
  | active link => rfl

/-- What a pass leaves is not due. -/
theorem settled_not_due {row row' : LinkRow} {now : ℕ} (htimed : row.Timed)
    (hnow : now + keepaliveMaxMs < 2 ^ 64) (h : row.settled now = some row') :
    row'.isDueAt now = false := by
  rw [LinkRow.settled] at h
  split at h
  · cases h
  rename_i hstays
  rw [Bool.or_eq_true, not_or, Bool.not_eq_true, Bool.not_eq_true] at hstays
  obtain ⟨hexpires, hcloses⟩ := hstays
  obtain rfl := Option.some.inj h
  rw [LinkRow.Timed] at htimed
  rw [LinkRow.kept]
  cases hphase : row.phase with
  | pending _ | handshake _ =>
      rw [LinkRow.expires, hphase] at hexpires
      exact hexpires
  | active link =>
      rw [hphase] at htimed
      rw [LinkRow.closes, hphase, Links.isStale, decide_eq_false_iff_not, not_le] at hcloses
      cases hkeeps : row.keeps now with
      | true =>
          have hsend := keptAlive_later htimed.2.1 htimed.2.2 hnow
          have hteardown : (Links.keptAlive link now).teardownAt = link.teardownAt := rfl
          have hdeadline : now < (Links.keptAlive link now).deadline := by
            rw [ActiveLink.deadline]
            split
            · rw [hteardown]
              exact hcloses
            · split
              · exact hsend
              · rw [hteardown]
                exact hcloses
          simp only [if_true]
          rw [LinkRow.isDueAt, activeRow, Option.any_some, decide_eq_false (Nat.not_le_of_lt hdeadline)]
      | false =>
          have hdeadline : now < link.deadline := by
            cases hinitiator : link.isInitiator with
            | true =>
                rw [ActiveLink.deadline_of_initiator hinitiator]
                split
                · rename_i hstale
                  rw [LinkRow.keeps, hphase, Links.owesKeepalive, hinitiator, decide_eq_true hstale,
                    Bool.and_true, Bool.true_and, decide_eq_false_iff_not, not_le] at hkeeps
                  exact hkeeps
                · exact hcloses
            | false =>
                rw [ActiveLink.deadline]
                rw [ActiveLink.isInitiator] at hinitiator
                split
                · exact hcloses
                · rename_i hrole
                  rw [hrole] at hinitiator
                  cases hinitiator
          simp only [Bool.false_eq_true, if_false]
          rw [LinkRow.isDueAt, htimed.1, Option.any_some,
            decide_eq_false (Nat.not_le_of_lt hdeadline)]

/-- What a pass comes to, from any coherent links. -/
structure Settles (host : DeadlineHost) (now : ℕ) (links links' : Links)
    (reactions : List LinkReaction) (expired closed kept : List LinkRow) : Prop where
  reactions : reactions = expired.flatMap LinkRow.expiry ++
    (closed.zipIdx.flatMap fun entry => entry.1.closing host (host.entropy entry.2)) ++
    kept.flatMap (LinkRow.keeping host)
  expired : expired.Perm (links.table.rows.filter (LinkRow.expires now))
  closed : closed.Perm (links.table.rows.filter (LinkRow.closes now))
  kept : kept.Perm (links.table.rows.filter fun row => row.keeps now && !row.closes now)
  rows : links'.table.rows.Perm (links.table.rows.filterMap (LinkRow.settled now))
  later : ∀ time, links'.earliestTimeout = some time → now < time

theorem DeadlineHost.fireDueOwnLinks_spec (host : DeadlineHost) {links : Links}
    (h : Coherent links) {now : ℕ} (hnow : now + keepaliveMaxMs < 2 ^ 64) :
    ∃ links' reactions expired closed kept,
      host.fireDueOwnLinks now links = some (links', reactions) ∧ Coherent links' ∧
      Settles host now links links' reactions expired closed kept := by
  obtain ⟨first, expired, hexpire, hfirst, hexpired, hleft⟩ :=
    DeadlineHost.expireUnestablishedLinks_spec now _ links h (Nat.lt_succ_self _)
  obtain ⟨second, closed, hclose, hsecond, hclosed, hopen⟩ :=
    host.closeStaleLinks_spec now _ 0 first hfirst (Nat.lt_succ_self _)
  obtain ⟨third, kept, hkeep, hthird, hkept, hrows⟩ := host.sendDueKeepalives_spec hnow
    (second.table.rows.length + 1) second hsecond (Nat.lt_succ_of_le (List.length_filter_le ..))
  have hsecond' : second.table.rows.Perm
      ((links.table.rows.filter fun row => !row.expires now).filter fun row => !row.closes now) :=
    hopen.trans (hleft.filter _)
  have hfinal : third.table.rows.Perm (links.table.rows.filterMap (LinkRow.settled now)) := by
    rw [filterMap_settled]
    exact hrows.trans (hsecond'.map _)
  refine ⟨third, _, expired, closed, kept, ?_, hthird, rfl, hexpired, ?_, ?_, hfinal, ?_⟩
  · rw [DeadlineHost.fireDueOwnLinks, hexpire]
    simp only [Option.bind_eq_bind, Option.bind_some, hclose, hkeep]
    rfl
  · have hsame : (links.table.rows.filter fun row => !row.expires now).filter (LinkRow.closes now) =
        links.table.rows.filter (LinkRow.closes now) := by
      rw [List.filter_filter]
      refine List.filter_congr fun row _ => ?_
      cases hcloses : row.closes now with
      | false => rfl
      | true => rw [not_expires_of_active (.inl hcloses)]; rfl
    exact hsame ▸ hclosed.trans (hleft.filter _)
  · have hsame : ((links.table.rows.filter fun row => !row.expires now).filter
        fun row => !row.closes now).filter (LinkRow.keeps now) =
        links.table.rows.filter fun row => row.keeps now && !row.closes now := by
      rw [List.filter_filter, List.filter_filter]
      refine List.filter_congr fun row _ => ?_
      cases hkeeps : row.keeps now with
      | false => simp only [Bool.false_and]
      | true => rw [not_expires_of_active (.inr hkeeps), Bool.not_false, Bool.and_true]
    exact hsame ▸ hkept.trans (hsecond'.filter _)
  · intro time htime
    rw [hthird.earliest, List.min?_eq_some_iff, List.mem_filterMap] at htime
    obtain ⟨⟨row', hrow', hat⟩, -⟩ := htime
    obtain ⟨row, hrow, hsettled⟩ := List.mem_filterMap.1 (hfinal.mem_iff.1 hrow')
    have hlater := settled_not_due (h.timed row hrow) hnow hsettled
    rw [LinkRow.isDueAt, hat, Option.any_some, decide_eq_false_iff_not, not_le] at hlater
    exact hlater

/-! ## Runs -/

/-- What a node does to its own links: an operation, or a pass over their deadlines. -/
inductive LinkNodeOp
  | op (op : LinksOp)
  | deadlines (host : DeadlineHost) (now : ℕ)

/-- Row numbers are `u32`; times do not come near the end of `u64`. -/
def LinkNodeInBounds (links : Links) : LinkNodeOp → Prop
  | .op op => Links.Room links op
  | .deadlines _ now => now + keepaliveMaxMs < 2 ^ 64

instance (links : Links) (op : LinkNodeOp) : Decidable (LinkNodeInBounds links op) :=
  match op with
  | .op op => inferInstanceAs (Decidable (Links.Room links op))
  | .deadlines _ now => inferInstanceAs (Decidable (now + keepaliveMaxMs < 2 ^ 64))

def linkNode : Lib.Machine Links LinkNodeOp where
  init := .default
  step links
    | .op op => (links.run op).map Prod.fst
    | .deadlines host now => (host.fireDueOwnLinks now links).map Prod.fst

theorem coherent_of_linkNode {links : Links} (h : linkNode.Reachable LinkNodeInBounds links) :
    Coherent links := by
  refine Lib.Machine.Reachable.invariant (I := Coherent) Links.coherent_default ?_ h
  intro links op next hcoherent hbounds hstep
  cases op with
  | op op =>
      obtain ⟨links', answer, hrun, hcoherent', -⟩ := Links.run_does hcoherent
        (show Links.Room links op from hbounds)
      change (links.run op).map Prod.fst = some next at hstep
      rw [hrun, Option.map_some, Option.some.injEq] at hstep
      exact hstep ▸ hcoherent'
  | deadlines host now =>
      obtain ⟨links', reactions, _, _, _, hrun, hcoherent', -⟩ :=
        host.fireDueOwnLinks_spec hcoherent hbounds
      change (host.fireDueOwnLinks now links).map Prod.fst = some next at hstep
      rw [hrun, Option.map_some, Option.some.injEq] at hstep
      exact hstep ▸ hcoherent'

/-- At any moment of any run, six minutes or more from the end of the clock, the three loops over a
node's own links end.  They tell each request that was not answered in time, close each session that
was silent for too long, and send one keepalive for each of the others that owes one; the rows they
leave are those their pass over them makes, and the next deadline of these is yet to come. -/
theorem fireDueOwnLinks_settles (host : DeadlineHost) {links : Links} {now : ℕ}
    (h : linkNode.Reachable LinkNodeInBounds links) (hnow : now + keepaliveMaxMs < 2 ^ 64) :
    ∃ links' reactions expired closed kept,
      host.fireDueOwnLinks now links = some (links', reactions) ∧
      Settles host now links links' reactions expired closed kept := by
  obtain ⟨links', reactions, expired, closed, kept, hrun, -, hsettles⟩ :=
    host.fireDueOwnLinks_spec (coherent_of_linkNode h) hnow
  exact ⟨links', reactions, expired, closed, kept, hrun, hsettles⟩

theorem fireDueOwnLinks_settles_run :
    ∃ (host : DeadlineHost) (links links' : Links) (reactions : List LinkReaction),
      links.table.rows.length = 3 ∧ links.earliestTimeout = some 3000 ∧
      host.fireDueOwnLinks 20000 links = some (links', reactions) ∧
      links'.table.rows.length = 1 ∧
      ∀ time, links'.earliestTimeout = some time → 20000 < time := by
  let host : DeadlineHost := ⟨.sample, fun _ => List.Vector.replicate 16 0, fun _ => true⟩
  let linkId : UInt8 → LinkId := fun byte => List.Vector.replicate 16 byte
  let pending : PendingLink := ⟨9, 1, .aes256Cbc, List.Vector.replicate 32 3,
    List.Vector.replicate 32 4, 1000, 7⟩
  let activation : LinkActivation := ⟨1, 20, 500, List.Vector.replicate 8 1,
    List.Vector.replicate 32 5⟩
  have hrun : (linkNode.runWhile LinkNodeInBounds linkNode.init
      [.op (.trackInitiated ⟨linkId 1, pending, 4000⟩),
        .op (.trackInitiated ⟨linkId 2, pending, 3000⟩),
        .op (.trackInitiated ⟨linkId 3, pending, 9000⟩),
        .op (.activateInitiated (linkId 1) ⟨List.Vector.replicate 64 6⟩ activation 16000)]).any
      (fun links => decide (links.earliestTimeout = some 3000 ∧ links.table.rows.length = 3 ∧
        (links.table.rows.filterMap (LinkRow.settled 20000)).length = 1)) = true := by decide
  obtain ⟨links, h, hlinks⟩ := Lib.Machine.exists_reachable_of_runWhile hrun
  obtain ⟨hearliest, hrows, hleft⟩ := of_decide_eq_true hlinks
  obtain ⟨links', reactions, expired, closed, kept, hfire, hsettles⟩ :=
    fireDueOwnLinks_settles host h (show 20000 + keepaliveMaxMs < 2 ^ 64 by decide)
  exact ⟨host, links, links', reactions, hrows, hearliest, hfire,
    by rw [hsettles.rows.length_eq, hleft], hsettles.later⟩

end Wire
end SvenBridge
