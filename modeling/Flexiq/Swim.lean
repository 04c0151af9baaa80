import Mathlib

/-! # The SWIM membership node

Every worker of a mesh runs one gossip node. The node keeps a map of the other members, each with a
state and an incarnation number, and changes it on two paths: updates that arrive on datagrams go
through a guard that compares (incarnation, state), while a suspicion that runs out in the node's
own failure detector writes `Dead` directly.

The gossip loop handles one event at a time: a tick of its protocol period, a datagram, or the
shutdown signal. Nothing else writes the members, so a run of a node is the list of its events.
What the code reads from outside while it handles an event is part of the event: the clock at each
place where it is read, the order in which a hash map is walked, and the peer a random choice
lands on. Datagrams are modelled decoded (`none` for one that does not decode) and the ones a node
sends are collected in its `outbox`. Sequence and incarnation numbers are natural numbers. Of the
hash ring the state keeps the calls that build it.
-/

namespace Flexiq

namespace Swim

/-- The identity of a worker in the mesh. -/
abbrev MemberId := String

/-- An address datagrams are sent to. -/
abbrev SocketAddr := String

/-- What a worker gossips about itself, as far as the node reads it. -/
structure WorkerInfo where
  workerId : MemberId
  gossipAddr : SocketAddr
  localBufferLen : Nat
deriving DecidableEq

inductive MemberState
  | alive
  | suspect
  | dead
  | left
deriving DecidableEq

/-- Higher priority wins in state conflict resolution. -/
def statePriority : MemberState → Nat
  | .alive => 0
  | .suspect => 1
  | .dead => 2
  | .left => 3

theorem statePriority_injective : Function.Injective statePriority := by
  intro s t _
  cases s <;> cases t <;> simp_all [statePriority]

/-- A member entry with state tracking. -/
structure Member where
  info : WorkerInfo
  state : MemberState
  incarnation : Nat
deriving DecidableEq

/-- A single membership state change to disseminate. -/
structure MemberUpdate where
  memberId : MemberId
  state : MemberState
  incarnation : Nat
  info : WorkerInfo
deriving DecidableEq

/-- The entry an update turns into when it is stored. -/
def MemberUpdate.member (update : MemberUpdate) : Member where
  info := update.info
  state := update.state
  incarnation := update.incarnation

inductive GossipMessage
  | ping (seq : Nat) (sender : MemberId) (senderAddr : SocketAddr)
  | ack (seq : Nat) (sender : MemberId)
  | pingReq (seq : Nat) (sender target : MemberId) (targetAddr : SocketAddr)
  | ackRelay (seq : Nat) (originalFrom via : MemberId)
  | sync (updates : List MemberUpdate)
  | compound (primary : GossipMessage) (updates : List MemberUpdate)
deriving DecidableEq

def GossipMessage.withUpdates (self : GossipMessage) (updates : List MemberUpdate) :
    GossipMessage :=
  if updates.isEmpty then self else .compound self updates

/-- The updates a node applies when it receives a message; those inside a nested message are
ignored. -/
def GossipMessage.updates : GossipMessage → List MemberUpdate
  | .compound _ updates => updates
  | .sync updates => updates
  | _ => []

/-! ## Hash maps

A hash map is a list of entries with distinct keys. The order in which one is walked is not
specified, so a walk takes the order of the keys as an argument. -/

section HashMap

variable {κ ν : Type}

def walk (order : κ → Nat) (m : AList fun _ : κ => ν) : List (Sigma fun _ : κ => ν) :=
  m.entries.insertionSort fun a b => order a.1 ≤ order b.1

/-- Keep the entries that satisfy `p`. -/
def retain (p : κ → ν → Bool) (m : AList fun _ : κ => ν) : AList fun _ : κ => ν where
  entries := m.entries.filter fun e => p e.1 e.2
  nodupKeys := m.nodupKeys.sublist List.filter_sublist

end HashMap

/-- The members a node knows, by worker id. -/
abbrev Members := AList fun _ : MemberId => Member

/-! ## Membership -/

/-- The incarnation of the local worker and the updates that wait to be piggybacked. -/
structure Membership where
  localId : MemberId
  localIncarnation : Nat
  pendingUpdates : List MemberUpdate
deriving DecidableEq

namespace Membership

/-- The bound on updates that wait to be piggybacked. -/
def maxPending : Nat := 64

/-- How many updates one message carries. -/
def piggybackLimit : Nat := 8

/-- The membership a node starts with. -/
def new (localId : MemberId) : Membership where
  localId := localId
  localIncarnation := 1
  pendingUpdates := []

/-- Increment the local incarnation, to refute a suspicion. -/
def refute (self : Membership) : Membership :=
  { self with localIncarnation := self.localIncarnation + 1 }

/-- Handle an update about the local worker: refute if suspected. -/
def handleSelfUpdate (self : Membership) (update : MemberUpdate) : Bool × Membership :=
  if (update.state = .suspect ∨ update.state = .dead) ∧
      update.incarnation ≥ self.localIncarnation then
    (true, self.refute)
  else
    (false, self)

/-- Whether an update overrides what is stored, by incarnation and then by state priority. -/
def shouldApply (_self : Membership) (update : MemberUpdate) (existing : Member) : Bool :=
  update.incarnation > existing.incarnation ||
    (update.incarnation == existing.incarnation &&
      statePriority update.state > statePriority existing.state)

/-- Whether an update changes the entry it is about: first contact always does. -/
def overrides (self : Membership) (update : MemberUpdate) : Option Member → Bool
  | some existing => self.shouldApply update existing
  | none => true

/-- Process an incoming update. Answers whether anything changed. -/
def applyUpdate (self : Membership) (update : MemberUpdate) (members : Members) :
    Bool × Membership × Members :=
  if update.memberId = self.localId then
    let (changed, self) := self.handleSelfUpdate update
    (changed, self, members)
  else
    if self.overrides update (members.lookup update.memberId) then
      (true, self, members.insert update.memberId update.member)
    else
      (false, self, members)

/-- Process a list of updates, first to last. -/
def applyAll (self : Membership) (updates : List MemberUpdate) (members : Members) :
    Membership × Members :=
  updates.foldl (fun s update => (s.1.applyUpdate update s.2).2) (self, members)

/-- Queue an update for piggybacking; a full queue drops its oldest one. -/
def queueUpdate (self : Membership) (update : MemberUpdate) : Membership :=
  { self with
    pendingUpdates :=
      (if self.pendingUpdates.length ≥ maxPending then self.pendingUpdates.tail
        else self.pendingUpdates) ++ [update] }

def takeUpdates (self : Membership) : List MemberUpdate × Membership :=
  (self.pendingUpdates.take piggybackLimit,
    { self with pendingUpdates := self.pendingUpdates.drop piggybackLimit })

end Membership

/-! ## The shared mesh state -/

inductive RingCall
  | addWorker (workerId : MemberId)
  | removeWorker (workerId : MemberId)
deriving DecidableEq

/-- The membership map, and the calls made on the hash ring, the latest first. -/
structure MeshState where
  members : Members
  ringCalls : List RingCall
  localWorkerId : MemberId
deriving DecidableEq

namespace MeshState

/-- The mesh of a worker that knows nobody else. -/
def new (workerId : MemberId) : MeshState where
  members := ∅
  ringCalls := [.addWorker workerId]
  localWorkerId := workerId

def getMember (self : MeshState) (workerId : MemberId) : Option Member :=
  self.members.lookup workerId

/-- Whether the map holds the worker as alive. -/
def isAlive (self : MeshState) (workerId : MemberId) : Bool :=
  (self.getMember workerId).any fun m => m.state == .alive

/-- Update or insert a member, under the worker id of its info, and move it on or off the ring if
its liveness changed. -/
def upsertMember (self : MeshState) (member : Member) : MeshState :=
  let workerId := member.info.workerId
  let isAlive := member.state == .alive
  { self with
    members := self.members.insert workerId member
    ringCalls :=
      if self.isAlive workerId = isAlive then self.ringCalls
      else if isAlive then .addWorker workerId :: self.ringCalls
      else .removeWorker workerId :: self.ringCalls }

def markDead (self : MeshState) (workerId : MemberId) : MeshState :=
  { self with
    members :=
      match self.members.lookup workerId with
      | some m => self.members.insert workerId { m with state := .dead }
      | none => self.members
    ringCalls := .removeWorker workerId :: self.ringCalls }

/-- The alive members other than the local worker, busiest first. -/
def alivePeers (self : MeshState) (order : MemberId → Nat) : List Member :=
  (((walk order self.members).map Sigma.snd).filter fun m =>
      m.state == .alive && m.info.workerId != self.localWorkerId).insertionSort
    fun a b => a.info.localBufferLen ≥ b.info.localBufferLen

/-- Number of alive members, the local worker excluded. -/
def aliveCount (self : MeshState) : Nat :=
  (self.members.entries.filter fun e =>
    e.2.state == .alive && e.2.info.workerId != self.localWorkerId).length

end MeshState

/-! ## The failure detector -/

/-- The settings the failure detector runs with. `suspicionTimeout` gives the time a suspicion
lasts for a number of members: a multiple of the protocol period that grows with the logarithm of
the number. -/
structure DetectorConfig where
  pingTimeoutMs : Int
  protocolPeriodMs : Int
  suspicionTimeout : Nat → Int

/-- Outstanding probes by sequence number, and since when each suspected member is suspected. -/
structure FailureDetector where
  pendingPings : AList fun _ : Nat => MemberId × Int
  pendingPingReqs : AList fun _ : Nat => MemberId × Int
  suspects : AList fun _ : MemberId => Int
deriving DecidableEq

/-- The time from `since` to `now`, zero if the clock reads earlier. -/
def durationSince (now since : Int) : Int := max (now - since) 0

namespace FailureDetector

/-- A detector with no probe out and nobody suspected. -/
def new : FailureDetector where
  pendingPings := ∅
  pendingPingReqs := ∅
  suspects := ∅

def pingSent (self : FailureDetector) (seq : Nat) (target : MemberId) (now : Int) :
    FailureDetector :=
  { self with pendingPings := self.pendingPings.insert seq (target, now) }

/-- Record that indirect probes were sent. -/
def pingReqSent (self : FailureDetector) (seq : Nat) (target : MemberId) (now : Int) :
    FailureDetector :=
  { self with pendingPingReqs := self.pendingPingReqs.insert seq (target, now) }

/-- Process an acknowledgement: the probe it answers is resolved and its target is no longer
suspected. -/
def ackReceived (self : FailureDetector) (seq : Nat) : FailureDetector :=
  match self.pendingPings.lookup seq with
  | some (target, _) =>
    { self with
      pendingPings := self.pendingPings.erase seq
      suspects := self.suspects.erase target }
  | none =>
    match self.pendingPingReqs.lookup seq with
    | some (target, _) =>
      { self with
        pendingPingReqs := self.pendingPingReqs.erase seq
        suspects := self.suspects.erase target }
    | none => self

/-- Take out the direct pings that timed out. Answers the members that need indirect probing. -/
def checkPingTimeouts (self : FailureDetector) (config : DetectorConfig) (order : Nat → Nat)
    (now : Int) : List MemberId × FailureDetector :=
  let expired := fun (ping : MemberId × Int) =>
    decide (durationSince now ping.2 > config.pingTimeoutMs)
  (((walk order self.pendingPings).filter fun e => expired e.2).map fun e => e.2.1,
    { self with pendingPings := retain (fun _ ping => !expired ping) self.pendingPings })

/-- Mark a member as suspect. Answers whether it is newly suspected. -/
def suspect (self : FailureDetector) (memberId : MemberId) (now : Int) :
    Bool × FailureDetector :=
  if (self.suspects.lookup memberId).isSome then
    (false, self)
  else
    (true, { self with suspects := self.suspects.insert memberId now })

/-- Take out the suspicions that ran out. Answers the members that are to be declared dead. -/
def checkSuspicionTimeouts (self : FailureDetector) (config : DetectorConfig)
    (order : MemberId → Nat) (memberCount : Nat) (now : Int) : List MemberId × FailureDetector :=
  let expired := fun (since : Int) =>
    decide (durationSince now since > config.suspicionTimeout memberCount)
  (((walk order self.suspects).filter fun e => expired e.2).map Sigma.fst,
    { self with suspects := retain (fun _ since => !expired since) self.suspects })

def clearSuspect (self : FailureDetector) (memberId : MemberId) : FailureDetector :=
  { self with suspects := self.suspects.erase memberId }

/-- Drop pending probes older than two protocol periods. -/
def gcStaleProbes (self : FailureDetector) (config : DetectorConfig) (now : Int) :
    FailureDetector :=
  let fresh := fun (ping : MemberId × Int) =>
    decide (durationSince now ping.2 < config.protocolPeriodMs * 2)
  { self with
    pendingPings := retain (fun _ ping => fresh ping) self.pendingPings
    pendingPingReqs := retain (fun _ ping => fresh ping) self.pendingPingReqs }

end FailureDetector

/-! ## The node -/

/-- The settings of a node. -/
structure SwimConfig where
  detector : DetectorConfig
  seeds : List SocketAddr
  indirectPingCount : Nat

/-- A gossip node, with the datagrams it has sent so far. -/
structure SwimNode where
  state : MeshState
  membership : Membership
  failureDetector : FailureDetector
  localInfo : WorkerInfo
  seq : Nat
  pendingRelays : AList fun _ : Nat => MemberId × SocketAddr
  outbox : List (SocketAddr × GossipMessage)
  stopped : Bool
deriving DecidableEq

/-- What the node reads from outside during one protocol period. -/
structure Tick where
  /-- The clock when stale probes are dropped. -/
  gcAt : Int
  /-- The clock when ping timeouts are checked. -/
  pingsAt : Int
  /-- The clock when the probe of a member is noted, or its suspicion begins. -/
  probeAt : MemberId → Int
  /-- The clock when suspicions are checked. -/
  suspicionsAt : Int
  /-- The clock when the period's own ping is noted. -/
  sentAt : Int
  memberOrder : MemberId → Nat
  pingOrder : Nat → Nat
  suspectOrder : MemberId → Nat
  /-- The draw that picks the peer to ping. -/
  choice : Nat

/-- What wakes the gossip loop. -/
inductive SwimEvent
  | tick (t : Tick)
  | datagram (sender : SocketAddr) (msg : Option GossipMessage) (memberOrder : MemberId → Nat)
  | shutdown (memberOrder : MemberId → Nat)

namespace SwimNode

variable (config : SwimConfig)

/-- A node that has not joined yet. -/
def new (state : MeshState) (localInfo : WorkerInfo) : SwimNode where
  state := state
  membership := Membership.new localInfo.workerId
  failureDetector := FailureDetector.new
  localInfo := localInfo
  seq := 0
  pendingRelays := ∅
  outbox := []
  stopped := false

/-- Advance to the next sequence number. -/
def nextSeq (self : SwimNode) : SwimNode := { self with seq := self.seq + 1 }

def sendMsg (self : SwimNode) (msg : GossipMessage) (addr : SocketAddr) : SwimNode :=
  { self with outbox := self.outbox ++ [(addr, msg)] }

/-- The update that announces the local worker as alive. -/
def makeLocalUpdate (self : SwimNode) : MemberUpdate where
  memberId := self.localInfo.workerId
  state := .alive
  incarnation := self.membership.localIncarnation
  info := self.localInfo

def queueUpdate (self : SwimNode) (update : MemberUpdate) : SwimNode :=
  { self with membership := self.membership.queueUpdate update }

/-- The update that reports a member in another state than the one stored. The local worker's own
info stands in for a member the node does not know. -/
def reportOf (self : SwimNode) (memberId : MemberId) (state : MemberState) : MemberUpdate :=
  match self.state.getMember memberId with
  | some m => { memberId, state, incarnation := m.incarnation, info := m.info }
  | none => { memberId, state, incarnation := 0, info := self.localInfo }

def joinSeeds (self : SwimNode) : SwimNode :=
  config.seeds.foldl (fun self seed =>
    let self := self.nextSeq
    let ping := GossipMessage.ping self.seq self.localInfo.workerId self.localInfo.gossipAddr
    self.sendMsg (ping.withUpdates [self.makeLocalUpdate]) seed) self

/-- Ask other peers to probe the target of a ping that timed out. Without any peer to ask, or
without an address for the target, the target is suspected. -/
def initiateIndirectProbe (t : Tick) (self : SwimNode) (targetId : MemberId) : SwimNode :=
  let peers := self.state.alivePeers t.memberOrder
  let intermediaries :=
    (peers.filter fun m => m.info.workerId != targetId).take config.indirectPingCount
  if intermediaries.isEmpty then
    let (newly, failureDetector) := self.failureDetector.suspect targetId (t.probeAt targetId)
    let self := { self with failureDetector }
    if newly then self.queueUpdate (self.reportOf targetId .suspect) else self
  else
    match peers.find? fun m => m.info.workerId == targetId with
    | some target =>
      let self := self.nextSeq
      let request := GossipMessage.pingReq self.seq self.localInfo.workerId targetId
        target.info.gossipAddr
      let self := intermediaries.foldl
        (fun self intermediary => self.sendMsg request intermediary.info.gossipAddr) self
      { self with
        failureDetector :=
          self.failureDetector.pingReqSent self.seq targetId (t.probeAt targetId) }
    | none =>
      { self with
        failureDetector := (self.failureDetector.suspect targetId (t.probeAt targetId)).2 }

/-- The first half of a protocol period: drop what is stale, then escalate the pings that timed
out. -/
def checkPings (t : Tick) (self : SwimNode) : SwimNode :=
  let failureDetector := self.failureDetector.gcStaleProbes config.detector t.gcAt
  let cutoff := self.seq - 100
  let (timedOut, failureDetector) :=
    failureDetector.checkPingTimeouts config.detector t.pingOrder t.pingsAt
  let self := { self with
    failureDetector
    pendingRelays := retain (fun seq _ => decide (seq > cutoff)) self.pendingRelays }
  timedOut.foldl (initiateIndirectProbe config t) self

/-- The members whose suspicion runs out, and the detector without them. -/
def newlyDead (t : Tick) (self : SwimNode) : List MemberId × FailureDetector :=
  self.failureDetector.checkSuspicionTimeouts config.detector t.suspectOrder
    (self.state.aliveCount + 1) t.suspicionsAt

def declareDead (self : SwimNode) (deadId : MemberId) : SwimNode :=
  let report := self.reportOf deadId .dead
  { self with state := self.state.markDead deadId }.queueUpdate report

def pickRandomAlivePeer (t : Tick) (self : SwimNode) : Option Member :=
  let peers := self.state.alivePeers t.memberOrder
  peers[t.choice % peers.length]?

/-- One SWIM protocol period: check timeouts, then ping a random peer. -/
def protocolTick (t : Tick) (self : SwimNode) : SwimNode :=
  let self := self.checkPings config t
  let (newlyDead, failureDetector) := self.newlyDead config t
  let self := newlyDead.foldl declareDead { self with failureDetector }
  match self.pickRandomAlivePeer t with
  | some target =>
    let self := self.nextSeq
    let ping := GossipMessage.ping self.seq self.localInfo.workerId self.localInfo.gossipAddr
    let (updates, membership) := self.membership.takeUpdates
    let self := { self with membership }.sendMsg (ping.withUpdates updates) target.info.gossipAddr
    { self with
      failureDetector := self.failureDetector.pingSent self.seq target.info.workerId t.sentAt }
  | none => self

def applyUpdate (self : SwimNode) (update : MemberUpdate) : SwimNode :=
  if update.memberId = self.localInfo.workerId then
    let (refuted, membership) := self.membership.handleSelfUpdate update
    let self := { self with membership }
    if refuted then self.queueUpdate self.makeLocalUpdate else self
  else
    let self :=
      if self.membership.overrides update (self.state.getMember update.memberId) then
        { self with state := self.state.upsertMember update.member }.queueUpdate update
      else self
    if update.state = .alive then
      { self with failureDetector := self.failureDetector.clearSuspect update.memberId }
    else self

/-- Apply the updates a datagram carries, first to last. -/
def applyUpdates (self : SwimNode) (updates : List MemberUpdate) : SwimNode :=
  updates.foldl applyUpdate self

def handlePrimary (order : MemberId → Nat) (self : SwimNode) (msg : GossipMessage)
    (sender : SocketAddr) : SwimNode :=
  match msg with
  | .ping seq _ _ =>
    let ack := GossipMessage.ack seq self.localInfo.workerId
    -- Every known alive peer goes along, so that the pinger discovers them.
    let peers := (self.state.alivePeers order).map fun peer =>
      { memberId := peer.info.workerId, state := peer.state, incarnation := peer.incarnation,
        info := peer.info : MemberUpdate }
    let (updates, membership) := self.membership.takeUpdates
    { self with membership }.sendMsg
      (ack.withUpdates (self.makeLocalUpdate :: peers ++ updates)) sender
  | .ack seq acker =>
    let relayed :=
      match self.pendingRelays.lookup seq with
      | some (_, requesterAddr) =>
        { self with pendingRelays := self.pendingRelays.erase seq }.sendMsg
          (.ackRelay seq acker self.localInfo.workerId) requesterAddr
      | none => self
    { relayed with failureDetector := relayed.failureDetector.ackReceived seq }
  | .pingReq _ requester _ targetAddr =>
    let self := self.nextSeq
    let ping := GossipMessage.ping self.seq self.localInfo.workerId self.localInfo.gossipAddr
    { self with pendingRelays := self.pendingRelays.insert self.seq (requester, sender) }.sendMsg
      ping targetAddr
  | .ackRelay seq _ _ =>
    { self with failureDetector := self.failureDetector.ackReceived seq }
  | .sync _ => self
  | .compound _ _ => self

def handleDatagram (order : MemberId → Nat) (self : SwimNode) (msg : Option GossipMessage)
    (sender : SocketAddr) : SwimNode :=
  match msg with
  | none => self
  | some (.compound primary updates) =>
    (self.applyUpdates updates).handlePrimary order primary sender
  | some (.sync updates) => self.applyUpdates updates
  | some other => self.handlePrimary order other sender

/-- Tell all known peers that the local worker leaves. -/
def broadcastLeave (order : MemberId → Nat) (self : SwimNode) : SwimNode :=
  let leave : MemberUpdate :=
    { self.makeLocalUpdate with
      state := .left
      incarnation := self.membership.localIncarnation + 1 }
  (self.state.alivePeers order).foldl
    (fun self peer => self.sendMsg (.sync [leave]) peer.info.gossipAddr) self

/-- One round of the gossip loop; the shutdown signal ends it. -/
def handle (self : SwimNode) (e : SwimEvent) : SwimNode :=
  if self.stopped then self
  else
    match e with
    | .tick t => self.protocolTick config t
    | .datagram sender msg order => self.handleDatagram order msg sender
    | .shutdown order => { self.broadcastLeave order with stopped := true }

def run (self : SwimNode) (events : List SwimEvent) : SwimNode :=
  events.foldl (handle config) self

end SwimNode

end Swim

end Flexiq
