import Mieru.Metrics.Quota
import Mieru.Session.Receiving
import Mieru.Underlay.Endurance

/-!
# Isolation of users

A session of a packet server belongs to the user whose request opened it.  The
event loop picks the session by the ID in the segment, and the input loop of
the session panics if the segment comes from another user.  When segments only
carry the IDs of their own user's sessions, no session sees a segment of
another user and no input loop panics.
-/

namespace Mieru.Protocol

open Mieru.Foundation
open Mieru.Cipher
open ProtocolType

variable {seg : Segment} {id : UInt32} {entry : SessionEntry} {event : PacketEvent}

structure Segment.SentBy (seg : Segment) (name : String) : Prop where
  typed : seg.metadata.Typed
  block : ∃ block, seg.block = some block ∧ block.ctx.userName = name

theorem Segment.SentBy.userName_eq {name : String} (h : seg.SentBy name) : seg.userName = name := by
  obtain ⟨block, hblock, hname⟩ := h.block
  rw [Segment.userName, hblock]
  exact hname

structure LiveSession.OwnedBy (l : LiveSession) (name : String) : Prop where
  received : ∀ seg ∈ l.session.recvChan, seg.SentBy name
  block : ∀ block, l.session.block = some block → block.ctx.userName = name
  calm : ∀ message seg, l.input ≠ .panicked message seg

namespace LiveSession

variable {l l' : LiveSession} {name : String} {event : SessionEvent}
  {sent : List Packet} {seg : Segment}

theorem OwnedBy.of_receiving (h : l.OwnedBy name)
    (hsame : l'.session.receiving = l.session.receiving)
    (hinput : l'.input = l.input) : l'.OwnedBy name where
  received := by
    have hchan : l'.session.recvChan = l.session.recvChan :=
      congrArg Receiving.recvChan hsame
    rw [hchan]
    exact h.received
  block := by
    have hblock : l'.session.block = l.session.block :=
      congrArg Receiving.block hsame
    rw [hblock]
    exact h.block
  calm := by
    rw [hinput]
    exact h.calm

theorem OwnedBy.checkBlockUser (h : l.OwnedBy name) (hname : name ≠ "")
    {block : BlockCipher} (hblock : block.ctx.userName = name) :
    l.session.checkBlockUser block = .ok () := by
  unfold Session.checkBlockUser
  split
  · rfl
  · rename_i prev hprev
    have hprevName := h.block prev hprev
    simp [hprevName, hblock, hname]

theorem OwnedBy.inputStep {env : Env} (h : l.OwnedBy name) (hname : name ≠ "")
    (hquota : ∀ message, l.session.quotaAnswer env ≠ .panic message)
    (hstep : l.step (.input env) = some (l', sent)) : l'.OwnedBy name := by
  obtain ⟨⟨session, input, packets⟩, hinput, heq⟩ :=
    Option.map_eq_some_iff.mp hstep
  cases heq
  by_cases hidle : l.input = .idle
  · rw [hidle] at hinput
    obtain ⟨-, -, rfl, rfl⟩ | ⟨seg, rest, hchan, htakes⟩ :=
      Session.inputStep_idle hinput
    · exact ⟨h.received, h.block, by simp⟩
    · have hreceived := h.received
      rw [hchan] at hreceived
      obtain ⟨hseg, hrest⟩ := List.forall_mem_cons.mp hreceived
      obtain ⟨block, hblock, hblockName⟩ := hseg.block
      refine ⟨?_, ?_, ?_⟩
      · rw [htakes.recvChan]
        exact hrest
      · intro stored hstored
        obtain hsame | hnew := htakes.block
        · exact h.block stored (hsame.symm.trans hstored)
        · rw [hstored, hblock] at hnew
          cases hnew
          exact hblockName
      · apply htakes.calm hseg.typed
        intro other hother
        rw [hblock] at hother
        cases hother
        exact h.checkBlockUser hname hblockName
  · have hworks := Session.works_inputStep hidle hinput
    refine ⟨?_, ?_, Session.inputStep_calm hidle hquota hinput⟩
    · rw [hworks.recvChan]
      exact h.received
    · rw [hworks.block]
      exact h.block

theorem OwnedBy.step (h : l.OwnedBy name) (hname : name ≠ "")
    (hquota : ∀ env, event = .input env → ∀ message, l.session.quotaAnswer env ≠ .panic message)
    (hstep : l.step event = some (l', sent)) : l'.OwnedBy name := by
  by_cases hinput : ∃ env, event = .input env
  · obtain ⟨env, rfl⟩ := hinput
    exact h.inputStep hname (hquota env rfl) hstep
  · have hother : ∀ env, event ≠ .input env := fun env heq => hinput ⟨env, heq⟩
    obtain ⟨hsame, hstate⟩ := step_receiving hstep hother
    exact h.of_receiving hsame hstate

theorem OwnedBy.receive (h : l.OwnedBy name) (hseg : seg.SentBy name)
    (hreceive : l.receive seg = some l') : l'.OwnedBy name := by
  obtain ⟨-, rfl⟩ := receive_eq_some hreceive
  refine ⟨?_, h.block, h.calm⟩
  intro other hother
  obtain hother | hother := List.mem_append.mp hother
  · exact h.received other hother
  · rw [List.mem_singleton.mp hother]
    exact hseg

end LiveSession

structure Underlay.Owned (u : Underlay) (owner : UInt32 → Option String) :
    Prop where
  sessions : ∀ id entry, u.sessions id = some entry → ∃ name,
    owner id = some name ∧ name ≠ "" ∧ entry.live.OwnedBy name
  sending : ∀ id seg, u.loop = .sending id seg → ∃ name, owner id = some name ∧ seg.SentBy name

namespace Underlay

variable {u u' : Underlay} {owner : UInt32 → Option String}

theorem Owned.setSession {name : String}
    (h : u.Owned owner) (howner : owner id = some name) (hname : name ≠ "")
    (hentry : entry.live.OwnedBy name) : (u.setSession id entry).Owned owner where
  sessions := by
    intro other found hfound
    obtain ⟨rfl, rfl⟩ | ⟨-, hother⟩ := SessionMap.set_eq_some hfound
    · exact ⟨name, howner, hname, hentry⟩
    · exact h.sessions other found hother
  sending := h.sending

theorem Owned.cleanSessions (h : u.Owned owner) (now : Int) :
    (u.cleanSessions now).Owned owner where
  sessions := by
    intro id entry hentry
    obtain ⟨before, hbefore, rfl⟩ := Option.map_eq_some_iff.mp hentry
    obtain ⟨name, howner, hname, howned⟩ := h.sessions id before hbefore
    refine ⟨name, howner, hname, ?_⟩
    split
    · exact howned.of_receiving (Session.receiving_closeWithError true) rfl
    · exact howned
  sending := h.sending

theorem Owned.next {event : UnderlayEvent} (h : u.Owned owner) (hserver : u.isClient = false)
    (hread : ∀ addr now answer seg, event ≠ .read addr now answer seg)
    (hquota : ∀ id env, event = .act id (.input env) → ∀ entry, u.sessions id = some entry →
      ∀ message, entry.live.session.quotaAnswer env ≠ .panic message)
    (hstep : u.next event = some u') : u'.Owned owner := by
  cases next_inv hstep with
  | read => exact absurd rfl (hread _ _ _ _)
  | @pass seg entry live id hloop hentry hreceive =>
    obtain ⟨name, howner, hname, howned⟩ := h.sessions id entry hentry
    obtain ⟨sender, hsender, hseg⟩ := h.sending id seg hloop
    cases howner.symm.trans hsender
    have hset : (u.setSession id { entry with live := live }).Owned owner :=
      h.setSession howner hname (howned.receive hseg hreceive)
    exact ⟨hset.sessions, by simp⟩
  | add hclient => cases hserver.symm.trans hclient
  | act hentry hact =>
    obtain ⟨name, howner, hname, howned⟩ := h.sessions _ _ hentry
    refine h.setSession howner hname (howned.step hname ?_ hact)
    rintro env rfl
    exact hquota _ env rfl _ hentry
  | clean => exact h.cleanSessions _

theorem protocol_of_deliver (h : u.handling seg = .deliver id) :
    seg.protocol ≠ openSessionRequest := by
  intro hprotocol
  unfold handling at h
  split at h
  · rename_i ss hmetadata
    rw [Segment.protocol, hmetadata] at hprotocol
    rw [show ss.protocol = openSessionRequest from hprotocol] at h
    simp only [onOpenSessionRequest] at h
    repeat' split at h
    all_goals cases h
  · rename_i das hmetadata
    rw [Segment.protocol, hmetadata] at hprotocol
    rw [show das.protocol = openSessionRequest from hprotocol] at h
    cases h

theorem sessions_handle {addr : Addr} {time : Int} {answer : WriteAnswer}
    (hentry : u.sessions id = some entry) (hregistered : entry.registered = true) :
    (u.handle addr time answer seg).1.sessions id = some entry := by
  have hdecides := u.handling_decides seg
  unfold handle
  split
  · exact hentry
  · rename_i created hcreate
    rw [hcreate] at hdecides
    have hne : id ≠ created := by
      rintro rfl
      have hnone := hdecides.2.1
      rw [found, SessionMap.load, hentry] at hnone
      simp [hregistered] at hnone
    exact (SessionMap.set_of_ne _ _ hne).trans hentry
  · split <;> exact hentry
  · exact hentry
  · exact hentry

end Underlay

namespace PacketRun

variable {crypto : Crypto} {keys : Int → Bytes → List Bytes}
  {r r' : PacketRun} {order : List UInt32} {now : Int}
  {answer : WriteAnswer} {d : Datagram} {seg : Segment}

def owner (r : PacketRun) (id : UInt32) : Option String :=
  (r.opened.find? fun opening => opening.id == id).map Opening.userName

/--
A datagram that decrypts is an open session request, or carries the ID of no
registered session, or the ID of a session of the same user.
-/
def KeepsOwner (crypto : Crypto) (keys : Int → Bytes → List Bytes)
    (r : PacketRun) (event : PacketEvent) : Prop :=
  ∀ order now answer d, event = .datagram order now answer d → ∀ nonce block plain metadata,
      r.underlay.Opens crypto (keys now) order d nonce (some block) plain →
      Metadata.unmarshal plain (unixSeconds now) = .ok metadata →
      metadata.protocol ≠ openSessionRequest →
      r.underlay.base.found metadata.sessionID = true →
      r.owner metadata.sessionID = some block.ctx.userName

/--
The answer is that of `checkQuota`, the users are accepted by validation with
quotas of at most 106751 days, and their metrics are time series.
-/
def ChecksQuota (env : Env) (userName : String) : Prop :=
  ∃ users m clock, env.quota = Metrics.quotaAllows (Metrics.checkQuota users m clock userName) ∧
    (∀ user, users.lookup userName = some user →
      Appctlpb.validateServerConfigSingleUser user = .ok () ∧ Metrics.DaysFit user) ∧
    Metrics.SeriesOf m userName

structure KeepsApart (crypto : Crypto) (keys : Int → Bytes → List Bytes)
    (r : PacketRun) (event : PacketEvent) : Prop where
  owner : r.KeepsOwner crypto keys event
  quota : ∀ id env, event = .loop (.act id (.input env)) →
    ∀ entry, r.underlay.base.sessions id = some entry →
      ChecksQuota env entry.live.session.userName

theorem ChecksQuota.calm {env : Env} {s : Session} (h : ChecksQuota env s.userName)
    (message : String) : s.quotaAnswer env ≠ .panic message := by
  obtain ⟨users, m, clock, hquota, hvalid, hseries⟩ := h
  have hcalm := (Metrics.checkQuota_of_daysFit hvalid hseries clock).2
  unfold Session.quotaAnswer
  split
  · simp
  · rw [hquota]
    exact Metrics.quotaAllows_calm hcalm message

structure Guarded (r : PacketRun) : Prop where
  server : r.underlay.isClient = false
  named : ∀ user ∈ r.underlay.users, user.name ≠ ""
  owned : r.underlay.base.Owned r.owner

theorem IsInitial.guarded (h : r.IsInitial)
    (hserver : r.underlay.isClient = false) : r.Guarded where
  server := hserver
  named := h.named
  owned := by
    constructor
    · intro id entry hentry
      rw [h.base.1] at hentry
      cases hentry
    · intro id seg hloop
      rw [h.base.2] at hloop
      cases hloop

theorem Guarded.sentBy (h : r.Guarded)
    (hread : (r.underlay.readOneSegment crypto (keys now) r.cache order now
      d).1 = .ok (some seg)) : seg.SentBy seg.userName ∧ seg.userName ≠ "" := by
  obtain ⟨nonce, plain, hopens, hmetadata⟩ :=
    PacketUnderlay.readOneSegment_eq_some hread
  obtain ⟨block, hblock, hcipher⟩ := hopens.of_server h.server
  have hname : seg.userName = block.ctx.userName := by
    rw [Segment.userName, hblock]
  refine ⟨⟨Metadata.typed_of_unmarshal hmetadata, block, hblock, hname.symm⟩, ?_⟩
  rw [hname]
  obtain ⟨id, -, live, hload, hlive, -⟩ | ⟨user, huser, key, -, rfl, -⟩ := hcipher
  · obtain ⟨name, -, hne, howned⟩ :=
      h.owned.sessions id _ (SessionMap.load_eq_some hload)
    rw [howned.block block hlive]
    exact hne
  · exact h.named user huser

theorem Guarded.owner_of_deliver (h : r.Guarded)
    (hguard : r.KeepsOwner crypto keys (.datagram order now answer d))
    (hread : (r.underlay.readOneSegment crypto (keys now) r.cache order now d).1 = .ok (some seg))
    (hdeliver : r.underlay.base.handling seg = .deliver id) : r.owner id = some seg.userName := by
  have hdecides := r.underlay.base.handling_decides seg
  rw [hdeliver] at hdecides
  obtain ⟨rfl, hfound⟩ := hdecides
  obtain ⟨nonce, plain, hopens, hmetadata⟩ :=
    PacketUnderlay.readOneSegment_eq_some hread
  obtain ⟨block, hblock, -⟩ := hopens.of_server h.server
  rw [hblock] at hopens
  have howner := hguard order now answer d rfl nonce block plain seg.metadata
    hopens hmetadata (Underlay.protocol_of_deliver hdeliver) hfound
  rw [Segment.userName, hblock]
  exact howner

theorem owner_cons_self (opened : List Opening) (id : UInt32) (name : String) :
    { r with opened := ⟨id, name⟩ :: opened }.owner id = some name := by
  simp [owner]

theorem owner_cons_of_ne {opened : List Opening} {other : UInt32} (name : String) (h : other ≠ id) :
    { r with opened := ⟨id, name⟩ :: opened }.owner other =
      { r with opened := opened }.owner other := by
  simp [owner, Ne.symm h]

theorem Guarded.create (h : r.Guarded)
    (hloop : r.underlay.base.loop = .reading) (hseg : seg.SentBy seg.userName)
    (hname : seg.userName ≠ "") : (r.underlay.base.setSession id
      { live := r.underlay.base.openedSession id d.addr now seg }).Owned
      { r with opened := ⟨id, seg.userName⟩ :: r.opened }.owner where
  sessions := by
    intro other entry hentry
    obtain ⟨rfl, rfl⟩ | ⟨hne, hother⟩ := SessionMap.set_eq_some hentry
    · refine ⟨seg.userName, owner_cons_self .., hname, ?_⟩
      constructor
      · intro received hreceived
        rw [List.mem_singleton.mp hreceived]
        exact hseg
      · intro block hblock
        cases hblock
      · intro message panicked hpanicked
        cases hpanicked
    · rw [owner_cons_of_ne _ hne]
      exact h.owned.sessions other entry hother
  sending := by
    intro other held hheld
    cases hloop.symm.trans hheld

theorem Guarded.handle (h : r.Guarded)
    (hguard : r.KeepsOwner crypto keys (.datagram order now answer d))
    (hloop : r.underlay.base.loop = .reading)
    (hread : (r.underlay.readOneSegment crypto (keys now) r.cache order now d).1 = .ok (some seg))
    (time : Int) : (r.underlay.base.handle d.addr time answer seg).1.Owned
      { r with opened := r.logOpening seg }.owner := by
  obtain ⟨hseg, hname⟩ := h.sentBy hread
  unfold Underlay.handle logOpening
  cases hhandling : r.underlay.base.handling seg with
  | deliver id =>
    refine ⟨h.owned.sessions, ?_⟩
    intro other held hheld
    cases hheld
    exact ⟨seg.userName, h.owner_of_deliver hguard hread hhandling, hseg⟩
  | create id => exact h.create hloop hseg hname
  | requestClose reply =>
    cases answer with
    | sent => exact h.owned
    | notReady => exact ⟨h.owned.sessions, by simp⟩
    | failed => exact ⟨h.owned.sessions, by simp⟩
  | ignore => exact h.owned
  | fail err => exact ⟨h.owned.sessions, by simp⟩

theorem Guarded.readDatagram (h : r.Guarded)
    (hguard : r.KeepsOwner crypto keys (.datagram order now answer d))
    (hloop : r.underlay.base.loop = .reading) :
    (r.readDatagram crypto keys order now answer d).Guarded := by
  unfold PacketRun.readDatagram
  split
  · exact ⟨h.server, h.named, h.owned⟩
  · rename_i seg cache hread
    have hrole := r.underlay.base.sameRole_handle d.addr (now / 1000) answer seg
    refine ⟨hrole.isClient.trans h.server, h.named, ?_⟩
    exact h.handle hguard hloop (congrArg Prod.fst hread) (now / 1000)
  · exact ⟨h.server, h.named, h.owned⟩
  · exact ⟨h.server, h.named, h.owned⟩

theorem Guarded.next (h : r.Guarded) (hguard : r.KeepsApart crypto keys event)
    (hstep : r.next crypto keys event = some r') : r'.Guarded := by
  cases event with
  | datagram order now answer d =>
    simp only [PacketRun.next] at hstep
    split at hstep
    · rename_i hloop _
      cases hstep
      exact h.readDatagram hguard.owner hloop
    · cases hstep
  | loop event =>
    obtain ⟨hread, base, hbase, rfl⟩ := next_loop_eq_some hstep
    refine ⟨(Underlay.sameRole_next hbase).isClient.trans h.server, h.named,
      h.owned.next h.server hread ?_ hbase⟩
    rintro id env rfl entry hentry
    exact (hguard.quota id env rfl entry hentry).calm
  | seen data tag now =>
    cases hstep
    exact ⟨h.server, h.named, h.owned⟩
  | setUsers users =>
    obtain ⟨hnamed, hstep⟩ := Option.ite_none_right_eq_some.mp hstep
    cases hstep
    exact ⟨h.server, hnamed, h.owned⟩

theorem isClient_next (hstep : r.next crypto keys event = some r') :
    r'.underlay.isClient = r.underlay.isClient := by
  cases event with
  | datagram order now answer d =>
    simp only [PacketRun.next] at hstep
    split at hstep
    · cases hstep
      unfold PacketRun.readDatagram
      split
      · rfl
      · exact (r.underlay.base.sameRole_handle ..).isClient
      · rfl
      · rfl
    · cases hstep
  | loop event =>
    obtain ⟨-, base, hbase, rfl⟩ := next_loop_eq_some hstep
    exact (Underlay.sameRole_next hbase).isClient
  | seen data tag now =>
    cases hstep
    rfl
  | setUsers users =>
    simp only [PacketRun.next] at hstep
    split at hstep <;> cases hstep
    rfl

theorem guarded_of_reachable
    (h : (packetSystem crypto keys).ReachableBy (PacketRun.KeepsApart crypto keys) r)
    (hserver : r.underlay.isClient = false) : r.Guarded := by
  induction h with
  | init hinit => exact IsInitial.guarded hinit hserver
  | step _ hguard hstep ih =>
    exact (ih ((isClient_next hstep).symm.trans hserver)).next hguard hstep

/-- No session has to do with segments of a user who does not own it. -/
structure Isolated (r : PacketRun) : Prop where
  calm : ∀ id entry, r.underlay.base.sessions id = some entry →
    ∀ message seg, entry.live.input ≠ .panicked message seg
  received : ∀ id entry, r.underlay.base.sessions id = some entry →
    ∀ seg ∈ entry.live.session.recvChan, r.owner id = some seg.userName
  delivered : ∀ id seg, r.underlay.base.loop = .sending id seg → r.owner id = some seg.userName

def Carries (crypto : Crypto) (keys : Int → Bytes → List Bytes) (r : PacketRun)
    (seg : Segment) : PacketEvent → Prop
  | .datagram order now _ d =>
    (r.underlay.readOneSegment crypto (keys now) r.cache order now d).1 = .ok (some seg)
  | .loop .pass => ∃ id, r.underlay.base.loop = .sending id seg
  | _ => False

theorem Guarded.isolated (h : r.Guarded) : r.Isolated where
  calm := by
    intro id entry hentry
    obtain ⟨name, -, -, howned⟩ := h.owned.sessions id entry hentry
    exact howned.calm
  received := by
    intro id entry hentry seg hseg
    obtain ⟨name, howner, -, howned⟩ := h.owned.sessions id entry hentry
    rw [(howned.received seg hseg).userName_eq]
    exact howner
  delivered := by
    intro id seg hloop
    obtain ⟨name, howner, hseg⟩ := h.owned.sending id seg hloop
    rw [hseg.userName_eq]
    exact howner

theorem Isolated.undisturbed (h : r.Isolated) (hcarries : r.Carries crypto keys seg event)
    (hstep : r.next crypto keys event = some r') (hentry : r.underlay.base.sessions id = some entry)
    (hregistered : entry.registered = true) (howner : r.owner id ≠ some seg.userName) :
    r'.underlay.base.sessions id = some entry := by
  cases event with
  | datagram order now answer d =>
    simp only [PacketRun.next] at hstep
    split at hstep
    · cases hstep
      unfold PacketRun.readDatagram
      split
      · exact hentry
      · exact Underlay.sessions_handle hentry hregistered
      · exact hentry
      · exact hentry
    · cases hstep
  | loop event =>
    cases event with
    | pass =>
      obtain ⟨target, hloop⟩ := hcarries
      obtain ⟨-, base, hbase, rfl⟩ := next_loop_eq_some hstep
      have hne : id ≠ target := by
        rintro rfl
        exact howner (h.delivered id seg hloop)
      cases Underlay.next_inv hbase with | pass hsending =>
      cases hloop.symm.trans hsending
      exact (SessionMap.set_of_ne _ _ hne).trans hentry
    | read => exact hcarries.elim
    | add => exact hcarries.elim
    | act => exact hcarries.elim
    | clean => exact hcarries.elim
  | seen => exact hcarries.elim
  | setUsers => exact hcarries.elim

/--
When the segments of each user carry only the IDs of the user's own sessions
and no quota has more than 106751 days, the sessions of other users neither
change nor see them, and no input loop panics.
-/
theorem user_isolation
    (h : (packetSystem crypto keys).ReachableBy (PacketRun.KeepsApart crypto keys) r)
    (hserver : r.underlay.isClient = false) :
    r.Isolated ∧ ∀ event seg r', r.Carries crypto keys seg event →
      r.next crypto keys event = some r' → ∀ id entry, r.underlay.base.sessions id = some entry →
        entry.registered = true → r.owner id ≠ some seg.userName →
        r'.underlay.base.sessions id = some entry := by
  have hisolated := (guarded_of_reachable h hserver).isolated
  refine ⟨hisolated, ?_⟩
  intro event seg r' hcarries hstep id entry hentry hregistered howner
  exact hisolated.undisturbed hcarries hstep hentry hregistered howner

end PacketRun

def bobClient : PacketUnderlay where
  base := { transport := .packetTransport, isClient := true, mtu := 1400 }
  serverAddr := "server"
  block := some { key := [2], ctx := ⟨"bob"⟩ }

def sharedServerRun : PacketRun where
  underlay := { aliceServer with
    users := [{ name := "alice", hashedPassword := "01" },
      { name := "bob", hashedPassword := "02" }] }
  cache := emptyCache

def bobData : Datagram where
  addr := "other"
  bytes := bobClient.datagramBytes "server" { choicesAt 120000000000 with fresh := nonceOf 6 }
    { metadata := .dataAck { protocol := dataClientToServer, sessionID := 3 } }

def readyEnv : Env := { Env.calm .fallback with now := 120000000 }

theorem checksQuota_readyEnv (userName : String) : PacketRun.ChecksQuota readyEnv userName := by
  have hnone : userName ≠ "alice" →
      [("alice", Metrics.quotaUser 7)].lookup userName = none := by
    intro hname
    simp [List.lookup_cons, beq_false_of_ne hname]
  refine ⟨[("alice", Metrics.quotaUser 7)], Metrics.quotaMetrics, fun _ => 120000000000, ?_, ?_,
    Metrics.seriesOf_quotaMetrics userName⟩
  · by_cases hname : userName = "alice"
    · subst hname
      decide
    · simp [Metrics.checkQuota, Metrics.checkQuotaWith, hnone hname, Metrics.quotaAllows,
        readyEnv, Env.calm]
  · intro user huser
    by_cases hname : userName = "alice"
    · subst hname
      cases huser
      exact ⟨by decide, by simp [Metrics.DaysFit, Metrics.quotaUser]⟩
    · cases (hnone hname).symm.trans huser

/-- A session is opened, with a quota of seven days for its user. -/
theorem user_isolation_alice : ∃ r, (packetSystem tagCrypto fun _ => passwordKeys).ReachableBy
        (PacketRun.KeepsApart tagCrypto fun _ => passwordKeys) r ∧
      (r.underlay.base.sessions 3).map (fun entry => entry.live.session.state) =
        some .sessionEstablished ∧ r.owner 3 = some "alice" ∧ r.Isolated := by
  have hguard : aliceServerRun.KeepsApart tagCrypto (fun _ => passwordKeys)
      (.datagram [] 120000000000 .sent (aliceRequest openSessionRequest 3)) := by
    refine ⟨?_, by simp⟩
    intro order now answer d _ nonce block plain metadata _ _ _ hfound
    cases hfound
  have hopened := System.ReachableBy.step (.init aliceServerRun_isInitial)
    hguard (S := packetSystem tagCrypto fun _ => passwordKeys) rfl
  have hinputs : ∀ event ∈ List.replicate 7 (PacketEvent.loop (.act 3 (.input readyEnv))),
      ∀ r : PacketRun, r.KeepsApart tagCrypto (fun _ => passwordKeys) event := by
    intro event hevent r
    rw [List.eq_of_mem_replicate hevent]
    refine ⟨by rintro order now answer d ⟨⟩, ?_⟩
    rintro id env ⟨⟩ entry -
    exact checksQuota_readyEnv entry.live.session.userName
  have hrun : (System.runEvents (PacketRun.next tagCrypto fun _ => passwordKeys)
      (aliceServerRun.readDatagram tagCrypto (fun _ => passwordKeys) [] 120000000000 .sent
        (aliceRequest openSessionRequest 3))
      (List.replicate 7 (PacketEvent.loop (.act 3 (.input readyEnv))))).map
        (fun r => (r.underlay.isClient, (r.underlay.base.sessions 3).map
          (fun entry => entry.live.session.state), r.owner 3)) =
      some (false, some .sessionEstablished, some "alice") := by
    decide +kernel
  obtain ⟨r, hr, hshows⟩ := Option.map_eq_some_iff.mp hrun
  simp only [Prod.mk.injEq] at hshows
  have hreachable := hopened.run (System.guarded_of_forall hinputs _) hr
  exact ⟨r, hreachable, hshows.2.1, hshows.2.2,
    (PacketRun.user_isolation hreachable hshows.1).1⟩

def PacketRun.inputPanic (r : PacketRun) (id : UInt32) : Option String :=
  match r.underlay.base.sessions id with
  | some entry =>
    match entry.live.input with
    | .panicked message _ => some message
    | _ => none
  | none => none

def bobEvents : List PacketEvent :=
  [PacketEvent.datagram [] 120000000000 .sent (aliceRequest openSessionRequest 3),
    .datagram [3] 120000000000 .sent bobData, .loop .pass] ++
    List.replicate 8 (PacketEvent.loop (.act 3 (.input readyEnv)))

/-- Data of one user for the session of another crashes the server. -/
theorem user_not_isolated : ∃ r, (packetSystem tagCrypto fun _ => passwordKeys).Reachable r ∧
      r.underlay.isClient = false ∧ r.owner 3 = some "alice" ∧
      r.inputPanic 3 = some "cipher block user names are different" := by
  have hinit : sharedServerRun.IsInitial :=
    ⟨⟨rfl, rfl⟩, rfl, by decide, by decide, rfl, rfl⟩
  exact System.exists_reachable hinit bobEvents (by decide +kernel)

end Mieru.Protocol
