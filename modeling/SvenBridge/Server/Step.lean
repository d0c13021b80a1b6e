import SvenBridge.Server.Model

/-!
# Server.Step — what one step of the server can do

`Step s a t` lists the steps of `Server.step` one constructor per branch, guards included;
`step_sound` is the inversion every invariant proof starts from.
-/

namespace SvenBridge
namespace Server

/-- The steps of the server, by name. -/
inductive Step (s : State) : Action → State → Prop where
  | reportEstablished {l} :
      Step s (.engine (.linkEstablished l)) { s with
        events := s.events ++ [.linkEstablished l], established := s.established ++ [l] }
  | reportClosed {l} :
      Step s (.engine (.linkClosed l)) { s with
        events := s.events ++ [.linkClosed l], closed := s.closed ++ [l] }
  | delivered {l c} :
      Step s (.engine (.delivered l c)) { s with
        events := s.events ++ [.linkData l c], delivered := s.delivered ++ [(l, c)] }
  | announced {dest appData} :
      Step s (.engine (.announceHeard dest appData)) { s with
        events := s.events ++ [.announceHeard dest (announceAppDataToName appData)] }
  | reportIdentified {l identity} :
      Step s (.engine (.peerIdentified l identity)) { s with
        events := s.events ++ [.peerIdentified l identity] }
  | other : Step s (.engine .other) s
  | takeAnnounce {dest name events} (hrouter : s.router = .recv)
      (hevents : s.events = .announceHeard dest name :: events) :
      Step s .router { s with events := events, router := .remember dest name }
  | takeIdentified {l identity events} (hrouter : s.router = .recv)
      (hevents : s.events = .peerIdentified l identity :: events) :
      Step s .router { s with events := events, router := .insertClient l identity }
  | takeEstablished {l events} (hrouter : s.router = .recv)
      (hevents : s.events = .linkEstablished l :: events) :
      Step s .router { s with events := events, router := .checkSenders l }
  | takeClosed {l events} (hrouter : s.router = .recv)
      (hevents : s.events = .linkClosed l :: events) :
      Step s .router { s with events := events, router := .removeSender l }
  | takeData {l c events} (hrouter : s.router = .recv)
      (hevents : s.events = .linkData l c :: events) :
      Step s .router { s with events := events, router := .forward l c }
  | remember {dest name} (hrouter : s.router = .remember dest name) :
      Step s .router { s with
        discovered := rememberServer s.now dest name s.discovered
        heard := s.heard ++ [(dest, name, s.now)]
        router := .recv }
  | insertClient {l identity} (hrouter : s.router = .insertClient l identity) :
      Step s .router { s with
        connected := Function.update s.connected l (some identity), router := .recv }
  | checkKnown {l} (hrouter : s.router = .checkSenders l) (hentry : (s.senders l).isSome = true) :
      Step s .router { s with router := .recv }
  | checkNew {l} (hrouter : s.router = .checkSenders l) (hentry : s.senders l = none) :
      Step s .router { s with router := .insertSender l }
  | spawn {l} (hrouter : s.router = .insertSender l) :
      Step s .router { s with
        relay := Function.update s.relay s.spawned { main := .binding, link := l }
        senders := Function.update s.senders l (some s.spawned)
        spawned := s.spawned + 1
        router := .recv }
  | removeSender {l r} (hrouter : s.router = .removeSender l) (hentry : s.senders l = some r) :
      Step s .router { s with
        senders := Function.update s.senders l none, router := .sendEnd l r }
  | removeUnknown {l} (hrouter : s.router = .removeSender l) (hentry : s.senders l = none) :
      Step s .router { s with router := .removeClient l }
  | endDropped {l r} (hrouter : s.router = .sendEnd l r)
      (hrx : (s.relay r).receiver = false) :
      Step s .router { s with router := .removeClient l }
  | endQueued {l r} (hrouter : s.router = .sendEnd l r) (hrx : (s.relay r).receiver = true)
      (hroom : (s.relay r).rx.length < channelCapacity) :
      Step s .router { s with
        relay := Function.update s.relay r { s.relay r with
          rx := (s.relay r).rx ++ [[]], accepted := (s.relay r).accepted ++ [[]] }
        router := .removeClient l }
  | removeClient {l} (hrouter : s.router = .removeClient l) :
      Step s .router { s with connected := Function.update s.connected l none, router := .recv }
  | forwardUnknown {l c} (hrouter : s.router = .forward l c) (hentry : s.senders l = none) :
      Step s .router { s with unclaimed := s.unclaimed ++ [(l, c)], router := .recv }
  | forwardDropped {l c r} (hrouter : s.router = .forward l c) (hentry : s.senders l = some r)
      (hdrop : (s.relay r).receiver = false ∨ channelCapacity ≤ (s.relay r).rx.length) :
      Step s .router { s with router := .recv }
  | forwardQueued {l c r} (hrouter : s.router = .forward l c) (hentry : s.senders l = some r)
      (hrx : (s.relay r).receiver = true) (hroom : (s.relay r).rx.length < channelCapacity) :
      Step s .router { s with
        relay := Function.update s.relay r { s.relay r with
          rx := (s.relay r).rx ++ [c], accepted := (s.relay r).accepted ++ [c] }
        router := .recv }
  | bound {r} (hmain : (s.relay r).main = .binding) :
      Step s (.bind r true) { s with
        relay := Function.update s.relay r { s.relay r with main := .connecting } }
  | bindFailed {r} (hmain : (s.relay r).main = .binding) :
      Step s (.bind r false) { s with
        relay := Function.update s.relay r { s.relay r with main := .removeFailed } }
  | spawnPumps {r} (hmain : (s.relay r).main = .connecting) :
      Step s (.connect r true) { s with
        relay := Function.update s.relay r
          { s.relay r with main := .joining, toSc := .recv, fromSc := .recv } }
  | connectFailed {r} (hmain : (s.relay r).main = .connecting) :
      Step s (.connect r false) { s with
        relay := Function.update s.relay r { s.relay r with main := .removeFailed } }
  | unregisterFailed {r} (hmain : (s.relay r).main = .removeFailed)
      (hguard : s.writeGuard = false) :
      Step s (.main r) { s with
        relay := Function.update s.relay r { s.relay r with main := .ended, rx := [] }
        senders := Function.update s.senders (s.relay r).link none
        commands := s.commands ++ issueClose s.stopped (s.relay r).link }
  | join {r} (hmain : (s.relay r).main = .joining) (htoSc : (s.relay r).toSc = .ended)
      (hfromSc : (s.relay r).fromSc = .ended) :
      Step s (.main r) { s with
        relay := Function.update s.relay r { s.relay r with main := .removeEnded } }
  | unregister {r} (hmain : (s.relay r).main = .removeEnded) (hguard : s.writeGuard = false) :
      Step s (.main r) { s with
        relay := Function.update s.relay r { s.relay r with main := .ended }
        senders := Function.update s.senders (s.relay r).link none
        commands := s.commands ++ issueClose s.stopped (s.relay r).link }
  | toScDone {r} (htoSc : (s.relay r).toSc = .recv) (hrx : (s.relay r).rx = [])
      (hsender : s.sender r = false) :
      Step s (.toSc r) { s with
        relay := Function.update s.relay r { s.relay r with toSc := .ended } }
  | toScEmpty {r rest} (htoSc : (s.relay r).toSc = .recv) (hrx : (s.relay r).rx = [] :: rest) :
      Step s (.toSc r) { s with
        relay := Function.update s.relay r { s.relay r with toSc := .ended, rx := [] } }
  | toScChunk {r chunk rest} (htoSc : (s.relay r).toSc = .recv)
      (hrx : (s.relay r).rx = chunk :: rest) (hchunk : chunk ≠ []) :
      Step s (.toSc r) { s with
        relay := Function.update s.relay r { s.relay r with
          rx := rest
          reassembler := ((s.relay r).reassembler.push chunk).1
          toSc := match ((s.relay r).reassembler.push chunk).2 with
            | some datagram => .sending datagram
            | none => .recv } }
  | scSent {r d} (htoSc : (s.relay r).toSc = .sending d) :
      Step s (.scSend r true) { s with
        relay := Function.update s.relay r
          { s.relay r with toSc := .recv, sent := (s.relay r).sent ++ [d] } }
  | scSendFailed {r d} (htoSc : (s.relay r).toSc = .sending d) :
      Step s (.scSend r false) { s with
        relay := Function.update s.relay r { s.relay r with toSc := .ended, rx := [] } }
  | scRecvFailed {r} (hfromSc : (s.relay r).fromSc = .recv) :
      Step s (.scRecv r none) { s with
        relay := Function.update s.relay r { s.relay r with fromSc := .ended } }
  | scRecvEmpty {r payload} (hfromSc : (s.relay r).fromSc = .recv)
      (hempty : payload.take udpReadBuf = []) :
      Step s (.scRecv r (some payload)) { s with
        relay := Function.update s.relay r
          { s.relay r with received := (s.relay r).received ++ [payload.take udpReadBuf] } }
  | scRecvChunks {r payload} (hfromSc : (s.relay r).fromSc = .recv)
      (hne : payload.take udpReadBuf ≠ []) (hrun : s.stopped = false) :
      Step s (.scRecv r (some payload)) { s with
        relay := Function.update s.relay r
          { s.relay r with received := (s.relay r).received ++ [payload.take udpReadBuf] }
        commands := s.commands ++ (frame (payload.take udpReadBuf)).map
          (PrnsCommand.sendToLink (s.relay r).link) }
  | scRecvRefused {r payload} (hfromSc : (s.relay r).fromSc = .recv)
      (hne : payload.take udpReadBuf ≠ []) (hstop : s.stopped = true) :
      Step s (.scRecv r (some payload)) { s with
        relay := Function.update s.relay r { s.relay r with
          received := (s.relay r).received ++ [payload.take udpReadBuf], fromSc := .ended } }
  | tick : Step s .tick { s with now := s.now + 1 }
  | nodeStop : Step s .nodeStop { s with stopped := true }

/-! ## Soundness -/

theorem routerStep_sound {s t : State} (h : routerStep s = some t) : Step s .router t := by
  unfold routerStep at h
  split at h
  case h_1 hrouter =>
      split at h
      case h_1 hevents =>
          cases h
      case h_2 dest name events hevents =>
          cases h
          exact .takeAnnounce hrouter hevents
      case h_3 l identity events hevents =>
          cases h
          exact .takeIdentified hrouter hevents
      case h_4 l events hevents =>
          cases h
          exact .takeEstablished hrouter hevents
      case h_5 l events hevents =>
          cases h
          exact .takeClosed hrouter hevents
      case h_6 l c events hevents =>
          cases h
          exact .takeData hrouter hevents
  case h_2 dest name hrouter =>
      cases h
      exact .remember hrouter
  case h_3 l identity hrouter =>
      cases h
      exact .insertClient hrouter
  case h_4 l hrouter =>
      split at h
      case isTrue hentry =>
          cases h
          exact .checkKnown hrouter hentry
      case isFalse hentry =>
          cases h
          exact .checkNew hrouter (by simpa using hentry)
  case h_5 l hrouter =>
      cases h
      exact .spawn hrouter
  case h_6 l hrouter =>
      split at h
      case h_1 r hentry =>
          cases h
          exact .removeSender hrouter hentry
      case h_2 hentry =>
          cases h
          exact .removeUnknown hrouter hentry
  case h_7 l r hrouter =>
      dsimp only at h
      split at h
      case isTrue hrx =>
          cases h
          exact .endDropped hrouter (by simpa using hrx)
      case isFalse hrx =>
          split at h
          case isTrue hroom =>
              cases h
              exact .endQueued hrouter (by simpa using hrx) hroom
          case isFalse =>
              cases h
  case h_8 l hrouter =>
      cases h
      exact .removeClient hrouter
  case h_9 l c hrouter =>
      split at h
      case h_1 hentry =>
          cases h
          exact .forwardUnknown hrouter hentry
      case h_2 r hentry =>
          dsimp only at h
          split at h
          case h_1 hsend =>
              cases h
              exact .forwardDropped hrouter hentry (trySend_eq_error hsend)
          case h_2 rx hsend =>
              cases h
              obtain ⟨hrx, hroom, rfl⟩ := trySend_eq_ok hsend
              exact .forwardQueued hrouter hentry hrx hroom

theorem mainStep_sound {s t : State} {r : ℕ} (h : mainStep s r = some t) :
    Step s (.main r) t := by
  unfold mainStep at h
  dsimp only at h
  split at h
  case h_1 hmain =>
      split at h
      case isTrue hguard =>
          cases h
      case isFalse hguard =>
          cases h
          exact .unregisterFailed hmain (by simpa using hguard)
  case h_2 hmain =>
      split at h
      case isTrue hjoin =>
          cases h
          exact .join hmain hjoin.1 hjoin.2
      case isFalse =>
          cases h
  case h_3 hmain =>
      split at h
      case isTrue hguard =>
          cases h
      case isFalse hguard =>
          cases h
          exact .unregister hmain (by simpa using hguard)
  case h_4 =>
      cases h

theorem toScStep_sound {s t : State} {r : ℕ} (h : toScStep s r = some t) :
    Step s (.toSc r) t := by
  unfold toScStep at h
  dsimp only at h
  split at h
  case h_1 htoSc =>
      split at h
      case h_1 hrx =>
          split at h
          case isTrue =>
              cases h
          case isFalse hsender =>
              cases h
              exact .toScDone htoSc hrx (by simpa using hsender)
      case h_2 chunk rest hrx =>
          split at h
          case isTrue hchunk =>
              obtain rfl := List.isEmpty_iff.1 hchunk
              cases h
              exact .toScEmpty htoSc hrx
          case isFalse hchunk =>
              cases h
              exact .toScChunk htoSc hrx (by simpa using hchunk)
  all_goals cases h

theorem scSendStep_sound {s t : State} {r : ℕ} {ok : Bool} (h : scSendStep s r ok = some t) :
    Step s (.scSend r ok) t := by
  unfold scSendStep at h
  dsimp only at h
  split at h
  case h_1 d htoSc =>
      cases ok with
      | true =>
          cases h
          exact .scSent htoSc
      | false =>
          cases h
          exact .scSendFailed htoSc
  all_goals cases h

theorem scRecvStep_sound {s t : State} {r : ℕ} {datagram : Option Datagram}
    (h : scRecvStep s r datagram = some t) : Step s (.scRecv r datagram) t := by
  cases datagram with
  | none =>
      unfold scRecvStep at h
      dsimp only at h
      split at h
      case h_1 hfromSc =>
          cases h
          exact .scRecvFailed hfromSc
      all_goals cases h
  | some payload =>
      unfold scRecvStep at h
      dsimp only at h
      split at h
      case h_1 hfromSc =>
          split at h
          case isTrue hempty =>
              cases h
              exact .scRecvEmpty hfromSc (List.isEmpty_iff.1 hempty)
          case isFalse hempty =>
              have hne : payload.take udpReadBuf ≠ [] := fun heq => hempty (by rw [heq]; rfl)
              cases hstop : s.stopped with
              | false =>
                  have hissue := issueChunks_running (s.relay r).link
                    (frame (payload.take udpReadBuf))
                  rw [← hstop] at hissue
                  rw [hissue] at h
                  cases h
                  exact .scRecvChunks hfromSc hne hstop
              | true =>
                  have hissue := issueChunks_stopped (s.relay r).link
                    (frame_ne_nil (payload.take udpReadBuf))
                  rw [← hstop] at hissue
                  rw [hissue, List.append_nil] at h
                  cases h
                  exact .scRecvRefused hfromSc hne hstop
      all_goals cases h

/-- Every step of the machine is one of the listed ones. -/
theorem step_sound {s t : State} {a : Action} (h : step s a = some t) : Step s a t := by
  cases a with
  | engine ev =>
      cases h
      cases ev with
      | announceHeard dest appData =>
          exact .announced
      | linkEstablished l =>
          exact .reportEstablished
      | peerIdentified l identity =>
          exact .reportIdentified
      | linkClosed l =>
          exact .reportClosed
      | delivered l c =>
          exact .delivered
      | other =>
          have hstep := Step.other (s := s)
          simpa [funnelEvent] using hstep
  | router =>
      exact routerStep_sound h
  | bind r ok =>
      unfold step at h
      dsimp only at h
      split at h
      case isTrue hmain =>
          cases ok with
          | true =>
              cases h
              exact .bound hmain
          | false =>
              cases h
              exact .bindFailed hmain
      case isFalse =>
          cases h
  | connect r ok =>
      unfold step at h
      dsimp only at h
      split at h
      case isTrue hmain =>
          cases ok with
          | true =>
              cases h
              exact .spawnPumps hmain
          | false =>
              cases h
              exact .connectFailed hmain
      case isFalse =>
          cases h
  | main r =>
      exact mainStep_sound h
  | toSc r =>
      exact toScStep_sound h
  | scSend r ok =>
      exact scSendStep_sound h
  | scRecv r datagram =>
      exact scRecvStep_sound h
  | tick =>
      cases h
      exact .tick
  | nodeStop =>
      cases h
      exact .nodeStop

end Server
end SvenBridge
