import SvenBridge.Client.Model

/-!
# Client.Step — what one step of the client can do

`Step s a t` lists the steps of `Client.step` one constructor per branch, guards included;
`step_sound` is the inversion every invariant proof starts from.
-/

namespace SvenBridge
namespace Client

/-! ## The step relation -/

/-- The steps of the client, by name. -/
inductive Step (s : State) : Action → State → Prop where
  | datagram {src payload} (hudp : s.udp = .recvFrom) :
      Step s (.datagram src payload) { s with
        udp := .lookup src (payload.take udpReadBuf)
        received := s.received ++ [(src, payload.take udpReadBuf)] }
  | udpError (hudp : s.udp = .recvFrom) :
      Step s .udpError { s with udp := .dead }
  | lookupFound {src pkt r} (hudp : s.udp = .lookup src pkt) (hentry : s.udpLinks src = some r) :
      Step s .udp { s with udp := .sending src r pkt }
  | lookupMissing {src pkt} (hudp : s.udp = .lookup src pkt) (hentry : s.udpLinks src = none) :
      Step s .udp { s with udp := .readTarget src pkt }
  | sendDropped {src r pkt} (hudp : s.udp = .sending src r pkt)
      (hrx : (s.relay r).upReceiver = false) :
      Step s .udp { s with udp := .removing src r }
  | sendQueued {src r pkt} (hudp : s.udp = .sending src r pkt)
      (hrx : (s.relay r).upReceiver = true) (hroom : (s.relay r).up.length < channelCapacity) :
      Step s .udp { s with
        udp := .recvFrom
        relay := Function.update s.relay r { s.relay r with
          up := (s.relay r).up ++ [pkt], queued := (s.relay r).queued ++ [pkt] } }
  | noTarget {src pkt} (hudp : s.udp = .readTarget src pkt) (htarget : s.target = none) :
      Step s .udp { s with udp := .recvFrom }
  | spawn {src pkt target} (hudp : s.udp = .readTarget src pkt) (htarget : s.target = some target) :
      Step s .udp { s with
        udp := .recvFrom
        spawned := s.spawned + 1
        relay := Function.update s.relay s.spawned
          { main := .establishing, src := src, pkt := pkt, target := target } }
  | delivered {l c} :
      Step s (.engine (.delivered l c)) { s with
        events := s.events ++ [.linkData l c], delivered := s.delivered ++ [(l, c)] }
  | engine {ev} (hev : ∀ l c, ev ≠ .delivered l c) :
      Step s (.engine ev) { s with events := s.events ++ (funnelEvent ev).toList }
  | takeAnnounce {dest name events} (hrouter : s.router = .recv)
      (hevents : s.events = .announceHeard dest name :: events) :
      Step s .router { s with events := events, router := .remember dest name }
  | takeIgnored {ev events} (hrouter : s.router = .recv) (hevents : s.events = ev :: events)
      (hev : (∃ l, ev = .linkEstablished l) ∨ ∃ l id, ev = .peerIdentified l id) :
      Step s .router { s with events := events }
  | takeClosed {l events} (hrouter : s.router = .recv)
      (hevents : s.events = .linkClosed l :: events) :
      Step s .router { s with events := events, router := .removeLinkData l }
  | takeData {l c events} (hrouter : s.router = .recv)
      (hevents : s.events = .linkData l c :: events) :
      Step s .router { s with events := events, router := .forward l c }
  | remember {dest name} (hrouter : s.router = .remember dest name) :
      Step s .router { s with
        discovered := rememberServer s.now dest name s.discovered
        heard := s.heard ++ [(dest, name, s.now)]
        router := .setTarget dest }
  | setTarget {dest} (hrouter : s.router = .setTarget dest) :
      Step s .router { s with
        target := if s.target.isNone then some dest else s.target
        router := .recv }
  | removeClosed {l} (hrouter : s.router = .removeLinkData l) :
      Step s .router { s with
        linkData := Function.update s.linkData l none
        closed := s.closed ++ [l]
        router := .recv }
  | forwardUnknown {l c} (hrouter : s.router = .forward l c) (hentry : s.linkData l = none) :
      Step s .router { s with unclaimed := s.unclaimed ++ [(l, c)], router := .recv }
  | forwardDropped {l c r} (hrouter : s.router = .forward l c) (hentry : s.linkData l = some r)
      (hdrop : (s.relay r).downReceiver = false ∨ channelCapacity ≤ (s.relay r).down.length) :
      Step s .router { s with router := .recv }
  | forwardQueued {l c r} (hrouter : s.router = .forward l c) (hentry : s.linkData l = some r)
      (hrx : (s.relay r).downReceiver = true) :
      Step s .router { s with
        router := .recv
        relay := Function.update s.relay r { s.relay r with
          down := (s.relay r).down ++ [c], accepted := (s.relay r).accepted ++ [c] } }
  | establishOk {r l} (hmain : (s.relay r).main = .establishing ∨
        (s.relay r).main = .reestablishing) (hfresh : s.freshLink l = true) :
      Step s (.establishOk r l) { s with
        relay := Function.update s.relay r { s.relay r with main := .identifying, link := l } }
  | requestPath {r} (hmain : (s.relay r).main = .establishing) :
      Step s (.establishErr r) { s with
        relay := Function.update s.relay r { s.relay r with main := .requestingPath } }
  | establishFailed {r} (hmain : (s.relay r).main = .reestablishing) :
      Step s (.establishErr r) { s with
        relay := Function.update s.relay r { s.relay r with main := .failed } }
  | pathOk {r} (hmain : (s.relay r).main = .requestingPath) :
      Step s (.pathOk r) { s with
        relay := Function.update s.relay r { s.relay r with main := .reestablishing } }
  | pathErr {r} (hmain : (s.relay r).main = .requestingPath) :
      Step s (.pathErr r) { s with
        relay := Function.update s.relay r { s.relay r with main := .failed } }
  | identified {r} (hmain : (s.relay r).main = .identifying) :
      Step s (.identified r) { s with
        relay := Function.update s.relay r { s.relay r with main := .insertLinks } }
  | register {r} (hmain : (s.relay r).main = .insertLinks) (hguard : s.readGuard = false)
      (hrun : s.stopped = false) :
      Step s (.main r) { s with
        relay := Function.update s.relay r { s.relay r with main := .insertLinkData }
        udpLinks := Function.update s.udpLinks (s.relay r).src (some r)
        commands := s.commands ++
          (frame (s.relay r).pkt).map (PrnsCommand.sendToLink (s.relay r).link) }
  | registerRefused {r} (hmain : (s.relay r).main = .insertLinks) (hguard : s.readGuard = false)
      (hstop : s.stopped = true) :
      Step s (.main r) { s with
        relay := Function.update s.relay r { s.relay r with main := .firstSendFailed }
        udpLinks := Function.update s.udpLinks (s.relay r).src (some r) }
  | unregisterRefused {r} (hmain : (s.relay r).main = .firstSendFailed)
      (hguard : s.readGuard = false) :
      Step s (.main r) { s with
        relay := Function.update s.relay r { s.relay r with main := .ended, up := [] }
        udpLinks := Function.update s.udpLinks (s.relay r).src none
        commands := s.commands ++ issueClose s.stopped (s.relay r).link }
  | spawnPumps {r} (hmain : (s.relay r).main = .insertLinkData) :
      Step s (.main r) { s with
        relay := Function.update s.relay r
          { s.relay r with main := .joining, send := .running, recv := .recv }
        linkData := Function.update s.linkData (s.relay r).link (some r) }
  | join {r} (hmain : (s.relay r).main = .joining) (hsend : (s.relay r).send = .ended)
      (hrecv : (s.relay r).recv = .ended) :
      Step s (.main r) { s with
        relay := Function.update s.relay r { s.relay r with main := .removeLinkData } }
  | unregisterData {r} (hmain : (s.relay r).main = .removeLinkData) :
      Step s (.main r) { s with
        relay := Function.update s.relay r { s.relay r with main := .removeLinks }
        linkData := Function.update s.linkData (s.relay r).link none }
  | unregister {r} (hmain : (s.relay r).main = .removeLinks) (hguard : s.readGuard = false) :
      Step s (.main r) { s with
        relay := Function.update s.relay r { s.relay r with main := .ended }
        udpLinks := Function.update s.udpLinks (s.relay r).src none
        commands := s.commands ++ issueClose s.stopped (s.relay r).link }
  | sendDone {r} (hsend : (s.relay r).send = .running) (hup : (s.relay r).up = [])
      (hsender : s.upSender r = false) :
      Step s (.send r) { s with
        relay := Function.update s.relay r { s.relay r with send := .ended } }
  | sendEmpty {r rest} (hsend : (s.relay r).send = .running) (hup : (s.relay r).up = [] :: rest) :
      Step s (.send r) { s with
        relay := Function.update s.relay r { s.relay r with send := .ended, up := [] } }
  | sendChunks {r bytes rest} (hsend : (s.relay r).send = .running)
      (hup : (s.relay r).up = bytes :: rest) (hbytes : bytes ≠ []) (hrun : s.stopped = false) :
      Step s (.send r) { s with
        relay := Function.update s.relay r { s.relay r with up := rest }
        commands := s.commands ++ (frame bytes).map (PrnsCommand.sendToLink (s.relay r).link) }
  | sendRefused {r bytes rest} (hsend : (s.relay r).send = .running)
      (hup : (s.relay r).up = bytes :: rest) (hbytes : bytes ≠ []) (hstop : s.stopped = true) :
      Step s (.send r) { s with
        relay := Function.update s.relay r { s.relay r with send := .ended, up := [] } }
  | recvDone {r} (hrecv : (s.relay r).recv = .recv) (hdown : (s.relay r).down = [])
      (hsender : s.downSender r = false) :
      Step s (.recv r) { s with
        relay := Function.update s.relay r { s.relay r with recv := .ended } }
  | recvChunk {r chunk rest} (hrecv : (s.relay r).recv = .recv)
      (hdown : (s.relay r).down = chunk :: rest) :
      Step s (.recv r) { s with
        relay := Function.update s.relay r { s.relay r with
          down := rest
          reassembler := ((s.relay r).reassembler.push chunk).1
          recv := match ((s.relay r).reassembler.push chunk).2 with
            | some datagram => .sending datagram
            | none => .recv } }
  | sentBack {r d} (hrecv : (s.relay r).recv = .sending d) :
      Step s (.sendTo r true) { s with
        relay := Function.update s.relay r
          { s.relay r with recv := .recv, sentBack := (s.relay r).sentBack ++ [d] } }
  | sendBackFailed {r d} (hrecv : (s.relay r).recv = .sending d) :
      Step s (.sendTo r false) { s with
        relay := Function.update s.relay r { s.relay r with recv := .ended, down := [] } }
  | tick : Step s .tick { s with now := s.now + 1 }
  | nodeStop : Step s .nodeStop { s with stopped := true }

/-! ## Soundness -/

theorem udpStep_sound {s t : State} (h : udpStep s = some t) : Step s .udp t := by
  unfold udpStep at h
  split at h
  case h_1 src pkt hudp =>
      split at h
      case h_1 r hentry =>
          cases h
          exact .lookupFound hudp hentry
      case h_2 hentry =>
          cases h
          exact .lookupMissing hudp hentry
  case h_2 src r pkt hudp =>
      dsimp only at h
      split at h
      case isTrue hrx =>
          cases h
          exact .sendDropped hudp (by simpa using hrx)
      case isFalse hrx =>
          split at h
          case isTrue hroom =>
              cases h
              exact .sendQueued hudp (by simpa using hrx) hroom
          case isFalse hroom =>
              cases h
  case h_3 src r hudp =>
      cases h
  case h_4 src pkt hudp =>
      split at h
      case h_1 htarget =>
          cases h
          exact .noTarget hudp htarget
      case h_2 target htarget =>
          cases h
          exact .spawn hudp htarget
  case h_5 hudp =>
      cases h
  case h_6 hudp =>
      cases h

theorem routerStep_sound {s t : State} (h : routerStep s = some t) : Step s .router t := by
  unfold routerStep at h
  split at h
  case h_1 hrouter =>
      split at h
      case h_1 hevents =>
          cases h
      case h_2 dest name events hevents =>
          cases h
          exact .takeAnnounce hrouter hevents
      case h_3 l events hevents =>
          cases h
          exact .takeIgnored hrouter hevents (.inl ⟨l, rfl⟩)
      case h_4 l id events hevents =>
          cases h
          exact .takeIgnored hrouter hevents (.inr ⟨l, id, rfl⟩)
      case h_5 l events hevents =>
          cases h
          exact .takeClosed hrouter hevents
      case h_6 l c events hevents =>
          cases h
          exact .takeData hrouter hevents
  case h_2 dest name hrouter =>
      cases h
      exact .remember hrouter
  case h_3 dest hrouter =>
      cases h
      exact .setTarget hrouter
  case h_4 l hrouter =>
      cases h
      exact .removeClosed hrouter
  case h_5 l c hrouter =>
      split at h
      case h_1 hentry =>
          cases h
          exact .forwardUnknown hrouter hentry
      case h_2 r hentry =>
          dsimp only at h
          split at h
          case h_1 hsend =>
              cases h
              exact .forwardDropped hrouter hentry (trySend_eq_error hsend)
          case h_2 down hsend =>
              cases h
              obtain ⟨hrx, _, rfl⟩ := trySend_eq_ok hsend
              exact .forwardQueued hrouter hentry hrx

theorem mainStep_sound {s t : State} {r : ℕ} (h : mainStep s r = some t) :
    Step s (.main r) t := by
  unfold mainStep at h
  dsimp only at h
  split at h
  case h_1 hmain =>
      split at h
      case isTrue hguard =>
          cases h
      case isFalse hguard =>
          have hguard' : s.readGuard = false := by simpa using hguard
          cases hstop : s.stopped with
          | false =>
              have hissue := issueChunks_running (s.relay r).link (frame (s.relay r).pkt)
              rw [← hstop] at hissue
              rw [hissue] at h
              cases h
              exact .register hmain hguard' hstop
          | true =>
              have hissue := issueChunks_stopped (s.relay r).link (frame_ne_nil (s.relay r).pkt)
              rw [← hstop] at hissue
              rw [hissue, List.append_nil] at h
              cases h
              exact .registerRefused hmain hguard' hstop
  case h_2 hmain =>
      split at h
      case isTrue hguard =>
          cases h
      case isFalse hguard =>
          cases h
          exact .unregisterRefused hmain (by simpa using hguard)
  case h_3 hmain =>
      cases h
      exact .spawnPumps hmain
  case h_4 hmain =>
      split at h
      case isTrue hjoin =>
          cases h
          exact .join hmain hjoin.1 hjoin.2
      case isFalse hjoin =>
          cases h
  case h_5 hmain =>
      cases h
      exact .unregisterData hmain
  case h_6 hmain =>
      split at h
      case isTrue hguard =>
          cases h
      case isFalse hguard =>
          cases h
          exact .unregister hmain (by simpa using hguard)
  case h_7 =>
      cases h

theorem sendStep_sound {s t : State} {r : ℕ} (h : sendStep s r = some t) :
    Step s (.send r) t := by
  unfold sendStep at h
  dsimp only at h
  split at h
  case h_1 hsend =>
      split at h
      case h_1 hup =>
          split at h
          case isTrue hsender =>
              cases h
          case isFalse hsender =>
              cases h
              exact .sendDone hsend hup (by simpa using hsender)
      case h_2 bytes rest hup =>
          split at h
          case isTrue hbytes =>
              obtain rfl := List.isEmpty_iff.1 hbytes
              cases h
              exact .sendEmpty hsend hup
          case isFalse hbytes =>
              have hbytes' : bytes ≠ [] := by simpa using hbytes
              cases hstop : s.stopped with
              | false =>
                  have hissue := issueChunks_running (s.relay r).link (frame bytes)
                  rw [← hstop] at hissue
                  rw [hissue] at h
                  cases h
                  exact .sendChunks hsend hup hbytes' hstop
              | true =>
                  have hissue := issueChunks_stopped (s.relay r).link (frame_ne_nil bytes)
                  rw [← hstop] at hissue
                  rw [hissue, List.append_nil] at h
                  cases h
                  exact .sendRefused hsend hup hbytes' hstop
  case h_2 hsend =>
      cases h
  case h_3 hsend =>
      cases h

theorem recvStep_sound {s t : State} {r : ℕ} (h : recvStep s r = some t) :
    Step s (.recv r) t := by
  unfold recvStep at h
  dsimp only at h
  split at h
  case h_1 hrecv =>
      split at h
      case h_1 hdown =>
          split at h
          case isTrue hsender =>
              cases h
          case isFalse hsender =>
              cases h
              exact .recvDone hrecv hdown (by simpa using hsender)
      case h_2 chunk rest hdown =>
          cases h
          exact .recvChunk hrecv hdown
  all_goals cases h

theorem sendToStep_sound {s t : State} {r : ℕ} {ok : Bool} (h : sendToStep s r ok = some t) :
    Step s (.sendTo r ok) t := by
  unfold sendToStep at h
  dsimp only at h
  split at h
  case h_1 d hrecv =>
      cases ok with
      | true =>
          cases h
          exact .sentBack hrecv
      | false =>
          cases h
          exact .sendBackFailed hrecv
  all_goals cases h

theorem engineReturn_eq_some {s t : State} {r : ℕ} {before after : MainPc}
    (h : engineReturn s r before after = some t) :
    (s.relay r).main = before ∧
      t = { s with relay := Function.update s.relay r { s.relay r with main := after } } := by
  unfold engineReturn at h
  split at h
  case isTrue hmain =>
      cases h
      exact ⟨hmain, rfl⟩
  case isFalse =>
      cases h

/-- Every step of the machine is one of the listed ones. -/
theorem step_sound {s t : State} {a : Action} (h : step s a = some t) : Step s a t := by
  cases a with
  | datagram src payload =>
      unfold step at h
      dsimp only at h
      split at h
      case h_1 hudp =>
          cases h
          exact .datagram hudp
      case h_2 =>
          cases h
  | udpError =>
      unfold step at h
      dsimp only at h
      split at h
      case h_1 hudp =>
          cases h
          exact .udpError hudp
      case h_2 =>
          cases h
  | udp =>
      exact udpStep_sound h
  | engine ev =>
      cases h
      cases ev with
      | delivered l c =>
          exact .delivered
      | announceHeard | linkEstablished | peerIdentified | linkClosed | other =>
          exact .engine (by simp)
  | router =>
      exact routerStep_sound h
  | establishOk r l =>
      unfold step at h
      dsimp only at h
      split at h
      case isTrue hguard =>
          cases h
          exact .establishOk hguard.1 hguard.2
      case isFalse =>
          cases h
  | establishErr r =>
      unfold step at h
      dsimp only at h
      split at h
      case isTrue hmain =>
          obtain ⟨_, rfl⟩ := engineReturn_eq_some h
          exact .requestPath hmain
      case isFalse =>
          obtain ⟨hmain, rfl⟩ := engineReturn_eq_some h
          exact .establishFailed hmain
  | pathOk r =>
      obtain ⟨hmain, rfl⟩ := engineReturn_eq_some h
      exact .pathOk hmain
  | pathErr r =>
      obtain ⟨hmain, rfl⟩ := engineReturn_eq_some h
      exact .pathErr hmain
  | identified r =>
      obtain ⟨hmain, rfl⟩ := engineReturn_eq_some h
      exact .identified hmain
  | main r =>
      exact mainStep_sound h
  | send r =>
      exact sendStep_sound h
  | recv r =>
      exact recvStep_sound h
  | sendTo r ok =>
      exact sendToStep_sound h
  | tick =>
      cases h
      exact .tick
  | nodeStop =>
      cases h
      exact .nodeStop

end Client
end SvenBridge
