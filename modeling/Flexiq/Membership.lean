import Flexiq.Register
import Flexiq.Swim

/-! # Gossip converges and does not go back

The pair (incarnation, state) a node stores for a member is the member's *standing*. Standings are
ordered by incarnation first and by the priority of the state within one incarnation. The guard of
an update asks for a strictly higher standing, so a member's entry is a register that keeps the
highest standing it has been offered. Two consequences are drawn here. Nodes that process the same
set of updates store the same standings, in whatever order and how often the updates arrive. And
along a run of the gossip loop no standing falls, as long as every update brings the info of the
member it is about and no suspicion runs out on a member that has already left. What a node answers
to a claim about itself overrides the claim at a peer only in the cases of `refutation_wins_iff`.
-/

namespace Flexiq

namespace Swim

open Register List

/-! ## Standings -/

/-- What is known of a member: its incarnation and its state in it. -/
structure Standing where
  incarnation : Nat
  state : MemberState
deriving DecidableEq

namespace Standing

/-- The pair by which standings are compared. -/
def key (s : Standing) : ℕ ×ₗ ℕ := toLex (s.incarnation, statePriority s.state)

theorem key_injective : Function.Injective key := by
  rintro ⟨i, s⟩ ⟨j, t⟩ h
  obtain ⟨rfl, hst⟩ : i = j ∧ statePriority s = statePriority t := by simpa [key] using h
  rw [statePriority_injective hst]

instance : LinearOrder Standing := LinearOrder.lift' key key_injective

variable {s t : Standing} {i : Nat}

theorem lt_iff :
    s < t ↔ s.incarnation < t.incarnation ∨
      s.incarnation = t.incarnation ∧ statePriority s.state < statePriority t.state :=
  Prod.Lex.toLex_lt_toLex

theorem le_iff :
    s ≤ t ↔ s.incarnation < t.incarnation ∨
      s.incarnation = t.incarnation ∧ statePriority s.state ≤ statePriority t.state :=
  Prod.Lex.toLex_le_toLex

/-- What is not above a member that is alive. -/
theorem le_alive_iff :
    s ≤ ⟨i, .alive⟩ ↔ s.incarnation < i ∨ s.state = .alive ∧ s.incarnation = i := by
  rw [le_iff]
  cases s.state <;> simp [statePriority]

/-- When the greatest of what is held, a claim and a refutation is alive. -/
theorem greatest_alive_iff {held : Option Standing} {u : Standing} (hu : u.state ≠ .alive) :
    (∃ j, IsGreatest {r | held = some r ∨ u = r ∨ ⟨i, .alive⟩ = r} ⟨j, .alive⟩) ↔
      (u.incarnation < i ∨ ∃ e ∈ held, e.state = .alive ∧ u.incarnation < e.incarnation) ∧
      ∀ e ∈ held, e.state ≠ .alive → e.incarnation < i := by
  obtain ⟨k, state⟩ := u
  simp only [IsGreatest, mem_upperBounds, Set.mem_ofPred_eq, or_imp, forall_and, forall_eq',
    le_alive_iff, Standing.mk.injEq]
  cases held with
  | none => grind
  | some e =>
    obtain ⟨j, state'⟩ := e
    simp only [Option.some.injEq, forall_eq', Option.mem_def, exists_eq_left', Standing.mk.injEq]
    constructor
    · grind
    · rintro ⟨_, _⟩
      by_cases hlater : state' = .alive ∧ i ≤ j
      · exact ⟨j, by grind⟩
      · exact ⟨i, by grind⟩

/-- When the greater of what is held and a refutation is alive. -/
theorem greater_alive_iff {held : Option Standing} :
    (∃ j, IsGreatest {r | held = some r ∨ ⟨i, .alive⟩ = r} ⟨j, .alive⟩) ↔
      ∀ e ∈ held, e.state ≠ .alive → e.incarnation < i := by
  simp only [IsGreatest, mem_upperBounds, Set.mem_ofPred_eq, or_imp, forall_and, forall_eq',
    le_alive_iff, Standing.mk.injEq]
  cases held with
  | none => grind
  | some e =>
    obtain ⟨j, state'⟩ := e
    simp only [Option.some.injEq, forall_eq', Option.mem_def, Standing.mk.injEq]
    constructor
    · grind
    · intro _
      by_cases hlater : state' = .alive ∧ i ≤ j
      · exact ⟨j, by grind⟩
      · exact ⟨i, by grind⟩

/-- A member that was dead or had left can only come back in a later incarnation. -/
theorem incarnation_lt_of_le (h : s ≤ t) (hs : s.state = .dead ∨ s.state = .left)
    (ht : t.state = .alive ∨ t.state = .suspect) : s.incarnation < t.incarnation := by
  rcases le_iff.mp h with hlt | ⟨-, hprio⟩
  · exact hlt
  · rcases hs with hs | hs <;> rcases ht with ht | ht <;>
      simp [hs, ht, statePriority] at hprio

end Standing

def Member.standing (m : Member) : Standing := ⟨m.incarnation, m.state⟩

def MemberUpdate.standing (u : MemberUpdate) : Standing := ⟨u.incarnation, u.state⟩

@[simp]
theorem MemberUpdate.standing_member (u : MemberUpdate) : u.member.standing = u.standing := rfl

/-- The guard of an update asks for a strictly higher standing. -/
theorem Membership.shouldApply_iff (self : Membership) (u : MemberUpdate) (m : Member) :
    self.shouldApply u m = true ↔ m.standing < u.member.standing := by
  simp only [Membership.shouldApply, Standing.lt_iff, Member.standing, MemberUpdate.member,
    Bool.or_eq_true, Bool.and_eq_true, decide_eq_true_eq, beq_iff_eq, gt_iff_lt,
    @eq_comm _ m.incarnation]

/-- An entry that is written if the guard lets the update through is a register that absorbs the
update's entry. -/
theorem Membership.absorb_member (self : Membership) (u : MemberUpdate) (held : Option Member) :
    absorb Member.standing held u.member =
      if self.overrides u held then some u.member else held := by
  cases held with
  | none => rfl
  | some m => simp only [absorb, overrides, self.shouldApply_iff u m]

/-! ## The merge of a set of updates -/

/-- The (incarnation, state) stored for a member. -/
def stored (members : Members) (id : MemberId) : Option Standing :=
  (members.lookup id).map Member.standing

namespace Membership

variable {self : Membership} {u : MemberUpdate} {members : Members}

/-- An update about another member is absorbed by that member's entry and leaves every other
entry alone. -/
theorem lookup_applyUpdate (hu : u.memberId ≠ self.localId) (id : MemberId) :
    (self.applyUpdate u members).2.2.lookup id =
      if u.memberId = id then absorb Member.standing (members.lookup id) u.member
      else members.lookup id := by
  rw [self.absorb_member]
  simp only [applyUpdate, if_neg hu]
  by_cases hid : u.memberId = id
  · subst hid
    simp only [↓reduceIte]
    split_ifs <;> simp
  · have hne : id ≠ u.memberId := fun h => hid h.symm
    split_ifs <;> simp [AList.lookup_insert_ne, hne]

theorem fst_applyUpdate (hu : u.memberId ≠ self.localId) :
    (self.applyUpdate u members).2.1 = self := by
  simp only [applyUpdate, if_neg hu]
  split_ifs <;> rfl

variable {updates : List MemberUpdate}

/-- A list of updates brings each entry to the result of absorbing the updates about it. -/
theorem lookup_applyAll (hother : ∀ u ∈ updates, u.memberId ≠ self.localId) (members : Members)
    (id : MemberId) :
    (self.applyAll updates members).2.lookup id =
      ((updates.filter (·.memberId = id)).map MemberUpdate.member).foldl
        (absorb Member.standing) (members.lookup id) := by
  induction updates generalizing members with
  | nil => rfl
  | cons u updates ih =>
    have hu := hother u mem_cons_self
    have hrest := fun v hv => hother v (mem_cons_of_mem u hv)
    have hstep : self.applyAll (u :: updates) members =
        updates.foldl (fun s u => (s.1.applyUpdate u s.2).2)
          ((self.applyUpdate u members).2.1, (self.applyUpdate u members).2.2) := rfl
    rw [hstep, fst_applyUpdate hu]
    rw [show updates.foldl _ _ = self.applyAll updates _ from rfl, ih hrest, lookup_applyUpdate hu]
    by_cases hid : u.memberId = id <;> simp [hid]

/-- The standing stored after a list of updates is the greatest one on offer. -/
theorem stored_applyAll (hother : ∀ u ∈ updates, u.memberId ≠ self.localId) (members : Members)
    (id : MemberId) (s : Standing) :
    stored (self.applyAll updates members).2 id = some s ↔
      IsGreatest {r | stored members id = some r ∨
        ∃ u ∈ updates, u.memberId = id ∧ u.standing = r} s := by
  have hset : {r | stored members id = some r ∨
        ∃ u ∈ updates, u.memberId = id ∧ u.standing = r} =
      {r | (∃ m ∈ members.lookup id, m.standing = r) ∨
        ∃ m ∈ (updates.filter (·.memberId = id)).map MemberUpdate.member, m.standing = r} := by
    ext r
    simp [stored, and_assoc]
  rw [hset, ← height_foldl_eq_coe, ← lookup_applyAll hother]
  rfl

end Membership

/-- Membership converges: after any list of updates about other members, the standing stored for a
member is the greatest of the one stored before and those the updates report, so two nodes that
stored the same and processed the same set of updates store the same. -/
theorem membership_converges (self other : Membership) (updates updates' : List MemberUpdate)
    (hself : ∀ u ∈ updates, u.memberId ≠ self.localId)
    (hother : ∀ u ∈ updates', u.memberId ≠ other.localId) (hsame : ∀ u, u ∈ updates ↔ u ∈ updates')
    (members members' : Members) (id : MemberId) (hstart : stored members id = stored members' id) :
    (∀ s, stored (self.applyAll updates members).2 id = some s ↔
        IsGreatest {r | stored members id = some r ∨
          ∃ u ∈ updates, u.memberId = id ∧ u.standing = r} s) ∧
      stored (self.applyAll updates members).2 id =
        stored (other.applyAll updates' members').2 id := by
  have hset : {r | stored members' id = some r ∨
        ∃ u ∈ updates', u.memberId = id ∧ u.standing = r} =
      {r | stored members id = some r ∨
        ∃ u ∈ updates, u.memberId = id ∧ u.standing = r} := by
    simp only [hstart, hsame]
  refine ⟨fun s => Membership.stored_applyAll hself members id s, Option.ext fun s => ?_⟩
  rw [Membership.stored_applyAll hself, Membership.stored_applyAll hother, hset]

/-- Two orders of three updates, one of them repeated, leave the same standing. -/
theorem membership_converges_repeated :
    let info : WorkerInfo := ⟨"p", "p:7946", 0⟩
    let suspected : MemberUpdate := ⟨"p", .suspect, 1, info⟩
    let refuted : MemberUpdate := ⟨"p", .alive, 2, info⟩
    stored ((Membership.new "a").applyAll [suspected, refuted] ∅).2 "p" =
      stored ((Membership.new "b").applyAll [refuted, suspected, refuted] ∅).2 "p" := by
  intro _ suspected refuted
  exact (membership_converges (.new "a") (.new "b") [suspected, refuted]
    [refuted, suspected, refuted] (by decide) (by decide) (by simp [or_comm]) ∅ ∅ "p" rfl).2

/-! ## A run of one node -/

namespace SwimNode

variable {config : SwimConfig} {self : SwimNode}

/-- The standing a node stores for a member, with `⊥` for one it does not know. -/
def standing (self : SwimNode) (id : MemberId) : WithBot Standing :=
  height Member.standing (self.state.getMember id)

/-- Whether an update brings the info of the member it is about. Updates about the local worker
are never stored and need not. -/
abbrev Genuine (self : SwimNode) (u : MemberUpdate) : Prop :=
  u.memberId ≠ self.localInfo.workerId → u.info.workerId = u.memberId

variable (config) in
/-- The events along which standings do not fall: every update of a datagram brings the info of the
member it is about, and no suspicion runs out on a member stored as left. -/
def Orderly (self : SwimNode) : SwimEvent → Prop
  | .tick t =>
    ∀ id ∈ ((self.checkPings config t).newlyDead config t).1,
      ∀ m ∈ self.state.getMember id, m.state ≠ .left
  | .datagram _ msg _ => ∀ m ∈ msg, ∀ u ∈ m.updates, self.Genuine u
  | .shutdown _ => True

variable (config) in
/-- A run whose events are all orderly when they are handled. -/
def OrderlyRun (self : SwimNode) : List SwimEvent → Prop
  | [] => True
  | e :: events => self.Orderly config e ∧ OrderlyRun (self.handle config e) events

instance (self : SwimNode) (e : SwimEvent) : Decidable (self.Orderly config e) := by
  unfold Orderly
  split <;> infer_instance

instance decidableOrderlyRun : ∀ (events : List SwimEvent) (self : SwimNode),
    Decidable (self.OrderlyRun config events)
  | [], _ => inferInstanceAs (Decidable True)
  | e :: events, self =>
    have := decidableOrderlyRun events (self.handle config e)
    inferInstanceAs (Decidable (_ ∧ _))

/-! ### What each handler does to the members

Sending, queueing and bookkeeping leave the mesh state as it is; only received updates and expired
suspicions write it. -/

@[simp]
theorem state_queueUpdate (self : SwimNode) (u : MemberUpdate) :
    (self.queueUpdate u).state = self.state := rfl

@[simp]
theorem state_sendMsg (self : SwimNode) (msg : GossipMessage) (addr : SocketAddr) :
    (self.sendMsg msg addr).state = self.state := rfl

theorem state_foldl {β : Type} {f : SwimNode → β → SwimNode}
    (hf : ∀ self b, (f self b).state = self.state) (l : List β) (self : SwimNode) :
    (l.foldl f self).state = self.state := by
  induction l generalizing self with
  | nil => rfl
  | cons b l ih => rw [foldl_cons, ih, hf]

theorem state_initiateIndirectProbe (t : Tick) (self : SwimNode) (target : MemberId) :
    (self.initiateIndirectProbe config t target).state = self.state := by
  unfold initiateIndirectProbe
  simp only
  split
  · split <;> rfl
  · split
    · exact state_foldl (fun self (m : Member) => state_sendMsg self _ m.info.gossipAddr) _
        self.nextSeq
    · rfl

theorem state_checkPings (t : Tick) (self : SwimNode) :
    (self.checkPings config t).state = self.state :=
  state_foldl (state_initiateIndirectProbe t) _ _

theorem state_handlePrimary (order : MemberId → Nat) (self : SwimNode) (msg : GossipMessage)
    (sender : SocketAddr) : (self.handlePrimary order msg sender).state = self.state := by
  cases msg with
  | ack =>
    simp only [handlePrimary]
    split <;> rfl
  | _ => rfl

theorem state_broadcastLeave (order : MemberId → Nat) (self : SwimNode) :
    (self.broadcastLeave order).state = self.state :=
  state_foldl (fun self (peer : Member) => state_sendMsg self _ peer.info.gossipAddr) _ self

theorem standing_congr {self' : SwimNode} (h : self'.state = self.state) (id : MemberId) :
    self'.standing id = self.standing id := by
  rw [standing, standing, h]

/-! ### Expired suspicions -/

def NotLeft (self : SwimNode) (id : MemberId) : Prop :=
  ∀ m ∈ self.state.getMember id, m.state ≠ .left

theorem getMember_declareDead (self : SwimNode) (deadId id : MemberId) :
    (self.declareDead deadId).state.getMember id =
      if id = deadId then (self.state.getMember id).map fun m => { m with state := .dead }
      else self.state.getMember id := by
  simp only [declareDead, state_queueUpdate, MeshState.markDead, MeshState.getMember]
  by_cases hid : id = deadId
  · subst hid
    cases hm : self.state.members.lookup id <;> simp [hm]
  · cases self.state.members.lookup deadId <;> simp [hid, AList.lookup_insert_ne]

theorem standing_le_declareDead {deadId : MemberId} (hdead : self.NotLeft deadId)
    (id : MemberId) : self.standing id ≤ (self.declareDead deadId).standing id := by
  simp only [standing, getMember_declareDead]
  by_cases hid : id = deadId
  · subst hid
    cases hm : self.state.getMember id with
    | none => simp
    | some m =>
      have hprio : statePriority m.state ≤ statePriority .dead := by
        have hne := hdead m hm
        cases hs : m.state <;> simp_all [statePriority]
      have hle : m.standing ≤ ⟨m.incarnation, .dead⟩ := Standing.le_iff.mpr (.inr ⟨rfl, hprio⟩)
      simpa [Member.standing] using hle
  · simp [hid]

theorem NotLeft.declareDead {id : MemberId} (h : self.NotLeft id) (deadId : MemberId) :
    (self.declareDead deadId).NotLeft id := by
  intro m hm
  rw [getMember_declareDead] at hm
  split at hm
  · obtain ⟨m', -, rfl⟩ := Option.mem_map.mp hm
    simp
  · exact h m hm

theorem standing_le_declareAll (dead : List MemberId) (self : SwimNode)
    (hdead : ∀ id ∈ dead, self.NotLeft id) (id : MemberId) :
    self.standing id ≤ (dead.foldl SwimNode.declareDead self).standing id := by
  induction dead generalizing self with
  | nil => exact le_rfl
  | cons d dead ih =>
    have hd := hdead d mem_cons_self
    have hrest : ∀ i ∈ dead, (self.declareDead d).NotLeft i :=
      fun i hi => (hdead i (mem_cons_of_mem d hi)).declareDead d
    exact (standing_le_declareDead hd id).trans (ih _ hrest)

/-- A protocol period keeps every standing if no suspicion runs out on a member that left. -/
theorem standing_le_protocolTick (t : Tick) (h : self.Orderly config (.tick t)) (id : MemberId) :
    self.standing id ≤ (self.protocolTick config t).standing id := by
  have hstate : (self.checkPings config t).state = self.state := state_checkPings t self
  have hdead := standing_le_declareAll ((self.checkPings config t).newlyDead config t).1
    { self.checkPings config t with
      failureDetector := ((self.checkPings config t).newlyDead config t).2 }
    (fun i hi m hm => h i hi m (hstate ▸ hm)) id
  have hbefore : self.standing id = standing { self.checkPings config t with
      failureDetector := ((self.checkPings config t).newlyDead config t).2 } id :=
    standing_congr hstate.symm id
  refine (hbefore.le.trans hdead).trans_eq (standing_congr ?_ id).symm
  unfold protocolTick
  simp only
  generalize foldl declareDead _ _ = declared
  split <;> rfl

/-! ### Received updates -/

@[simp]
theorem localInfo_applyUpdate (self : SwimNode) (u : MemberUpdate) :
    (self.applyUpdate u).localInfo = self.localInfo := by
  simp only [applyUpdate]
  split_ifs <;> rfl

theorem state_applyUpdate {u : MemberUpdate} (hu : u.memberId ≠ self.localInfo.workerId) :
    (self.applyUpdate u).state =
      if self.membership.overrides u (self.state.getMember u.memberId)
      then self.state.upsertMember u.member else self.state := by
  simp only [applyUpdate, if_neg hu]
  split_ifs <;> rfl

/-- An update is stored under the worker id of its info, whomever it is about. -/
theorem getMember_applyUpdate_of_ne {u : MemberUpdate} (hu : u.memberId ≠ self.localInfo.workerId)
    {id : MemberId} (hid : id ≠ u.info.workerId) :
    (self.applyUpdate u).state.getMember id = self.state.getMember id := by
  rw [state_applyUpdate hu]
  split_ifs
  · simp [MeshState.getMember, MeshState.upsertMember, MemberUpdate.member,
      AList.lookup_insert_ne, hid]
  · rfl

/-- A genuine update is absorbed by the entry of the member it is about. -/
theorem getMember_applyUpdate {u : MemberUpdate} (hu : u.memberId ≠ self.localInfo.workerId)
    (hinfo : u.info.workerId = u.memberId) (id : MemberId) :
    (self.applyUpdate u).state.getMember id =
      if u.memberId = id then absorb Member.standing (self.state.getMember id) u.member
      else self.state.getMember id := by
  by_cases hid : u.memberId = id
  · subst hid
    rw [state_applyUpdate hu, self.membership.absorb_member, if_pos rfl]
    split_ifs
    · simp [MeshState.getMember, MeshState.upsertMember, MemberUpdate.member, hinfo]
    · rfl
  · rw [if_neg hid, getMember_applyUpdate_of_ne hu fun h => hid (hinfo ▸ h.symm)]

/-- Genuine updates bring each entry to the result of absorbing the updates about it. -/
theorem getMember_applyUpdates {updates : List MemberUpdate}
    (hother : ∀ u ∈ updates, u.memberId ≠ self.localInfo.workerId)
    (hinfo : ∀ u ∈ updates, u.info.workerId = u.memberId) (id : MemberId) :
    (self.applyUpdates updates).state.getMember id =
      ((updates.filter (·.memberId = id)).map MemberUpdate.member).foldl
        (absorb Member.standing) (self.state.getMember id) := by
  induction updates generalizing self with
  | nil => rfl
  | cons u updates ih =>
    have hu := hother u mem_cons_self
    rw [show self.applyUpdates (u :: updates) = (self.applyUpdate u).applyUpdates updates from rfl,
      ih (fun v hv => by simpa using hother v (mem_cons_of_mem u hv))
        fun v hv => hinfo v (mem_cons_of_mem u hv),
      getMember_applyUpdate hu (hinfo u mem_cons_self)]
    by_cases hid : u.memberId = id <;> simp [hid]

/-- On genuine updates the node does what `Membership.applyAll` does, so that nodes converge too. -/
theorem getMember_applyUpdates_eq {updates : List MemberUpdate}
    (hlocal : self.membership.localId = self.localInfo.workerId)
    (hother : ∀ u ∈ updates, u.memberId ≠ self.localInfo.workerId)
    (hinfo : ∀ u ∈ updates, u.info.workerId = u.memberId) (id : MemberId) :
    (self.applyUpdates updates).state.getMember id =
      (self.membership.applyAll updates self.state.members).2.lookup id := by
  rw [getMember_applyUpdates hother hinfo, Membership.lookup_applyAll (hlocal.symm ▸ hother)]
  rfl

theorem standing_le_applyUpdate {u : MemberUpdate} (hu : self.Genuine u) (id : MemberId) :
    self.standing id ≤ (self.applyUpdate u).standing id := by
  by_cases hself : u.memberId = self.localInfo.workerId
  · refine (standing_congr ?_ id).ge
    simp only [applyUpdate, if_pos hself]
    split_ifs <;> rfl
  · rw [standing, standing, getMember_applyUpdate hself (hu hself)]
    split_ifs
    · rw [height_absorb]
      exact le_max_left _ _
    · exact le_rfl

theorem standing_le_applyUpdates (updates : List MemberUpdate) (self : SwimNode)
    (hu : ∀ u ∈ updates, self.Genuine u) (id : MemberId) :
    self.standing id ≤ (self.applyUpdates updates).standing id := by
  induction updates generalizing self with
  | nil => exact le_rfl
  | cons u updates ih =>
    have hrest : ∀ v ∈ updates, (self.applyUpdate u).Genuine v := by
      intro v hv
      rw [Genuine, localInfo_applyUpdate]
      exact hu v (mem_cons_of_mem u hv)
    exact (standing_le_applyUpdate (hu u mem_cons_self) id).trans (ih _ hrest)

theorem standing_le_handleDatagram (order : MemberId → Nat) (msg : Option GossipMessage)
    (sender : SocketAddr) (h : ∀ m ∈ msg, ∀ u ∈ m.updates, self.Genuine u) (id : MemberId) :
    self.standing id ≤ (self.handleDatagram order msg sender).standing id := by
  cases msg with
  | none => exact le_rfl
  | some msg =>
    cases msg with
    | compound primary updates =>
      have happly := standing_le_applyUpdates updates self (h _ rfl) id
      exact happly.trans_eq (standing_congr (state_handlePrimary order _ primary sender) id).symm
    | sync updates => exact standing_le_applyUpdates updates self (h _ rfl) id
    | _ => exact (standing_congr (state_handlePrimary order self _ sender) id).ge

/-! ### Whole runs -/

theorem standing_le_handle (e : SwimEvent) (h : self.Orderly config e) (id : MemberId) :
    self.standing id ≤ (self.handle config e).standing id := by
  unfold handle
  split
  · exact le_rfl
  · cases e with
    | tick t => exact standing_le_protocolTick t h id
    | datagram sender msg order => exact standing_le_handleDatagram order msg sender h id
    | shutdown order => exact (standing_congr (state_broadcastLeave order self).symm id).le

theorem standing_le_run (events : List SwimEvent) (self : SwimNode)
    (h : self.OrderlyRun config events) (id : MemberId) :
    self.standing id ≤ (self.run config events).standing id := by
  induction events generalizing self with
  | nil => exact le_rfl
  | cons e events ih => exact (standing_le_handle e h.1 id).trans (ih _ h.2)

end SwimNode

/-- Membership does not regress: along a run of orderly events the standing stored for a member
does not fall, and a member stored as dead or left comes back as alive or suspect only in a later
incarnation. -/
theorem membership_never_regresses (config : SwimConfig) (node : SwimNode)
    (events : List SwimEvent) (h : node.OrderlyRun config events) (id : MemberId) :
    node.standing id ≤ (node.run config events).standing id ∧
      ∀ m m', node.state.getMember id = some m →
        (node.run config events).state.getMember id = some m' →
        m.state = .dead ∨ m.state = .left → m'.state = .alive ∨ m'.state = .suspect →
        m.incarnation < m'.incarnation := by
  have hle := SwimNode.standing_le_run events node h id
  refine ⟨hle, fun m m' hm hm' hs hs' => ?_⟩
  have hstand : m.standing ≤ m'.standing := by simpa [SwimNode.standing, hm, hm'] using hle
  exact Standing.incarnation_lt_of_le hstand hs hs'

/-! ## Refutation -/

/-- The claim is not above the node: it is about an earlier incarnation, or suspects the present
one. -/
def Refutable (self : SwimNode) (u : MemberUpdate) : Prop :=
  u.incarnation < self.membership.localIncarnation ∨
    u.incarnation = self.membership.localIncarnation ∧ u.state ≠ .left

/-- What a node says of itself after a claim about it is above incarnation `k`: `k` is earlier than
the node's own incarnation, or the same one, and the claim made the node raise it. -/
def AnswerAbove (self : SwimNode) (u : MemberUpdate) (k : Nat) : Prop :=
  k < self.membership.localIncarnation ∨
    k = self.membership.localIncarnation ∧ u.state ≠ .left ∧
      self.membership.localIncarnation ≤ u.incarnation

section Refutation

variable {self peer : SwimNode} {u : MemberUpdate}

/-- An incarnation is only ever raised by one, and a claim that the node left is passed over. -/
theorem answerAbove_iff (hself : u.memberId = self.localInfo.workerId) (hclaim : u.state ≠ .alive)
    (k : Nat) :
    AnswerAbove self u k ↔ k < (self.applyUpdate u).makeLocalUpdate.incarnation := by
  have hsaid : (self.applyUpdate u).makeLocalUpdate.incarnation =
      if (u.state = .suspect ∨ u.state = .dead) ∧
        u.incarnation ≥ self.membership.localIncarnation then
        self.membership.localIncarnation + 1 else self.membership.localIncarnation := by
    simp only [SwimNode.applyUpdate, if_pos hself, Membership.handleSelfUpdate]
    split <;> rfl
  rw [hsaid, AnswerAbove]
  cases hs : u.state <;> simp_all <;> split <;> omega

/-- What a node says of itself outranks a claim about it exactly if the claim was not above the
node. -/
theorem refutable_iff (self : SwimNode) (u : MemberUpdate) :
    Refutable self u ↔ AnswerAbove self u u.incarnation := by
  unfold Refutable AnswerAbove
  constructor
  · rintro (h | ⟨h, hstate⟩)
    · exact .inl h
    · exact .inr ⟨h, hstate, h.ge⟩
  · rintro (h | ⟨h, hstate, -⟩)
    · exact .inl h
    · exact .inr ⟨h, hstate⟩

/-- A member is held as alive after writes to its entry iff the greatest standing is. -/
theorem MeshState.isAlive_iff {s : MeshState} {id : MemberId} {writes : List Member}
    {held : Option Member}
    (h : s.getMember id = writes.foldl (absorb Member.standing) held) :
    s.isAlive id = true ↔ ∃ i, IsGreatest {r | held.map Member.standing = some r ∨
      ∃ a ∈ writes, a.standing = r} ⟨i, .alive⟩ := by
  have halive : s.isAlive id = true ↔
      ∃ i, height Member.standing (s.getMember id) = (⟨i, .alive⟩ : Standing) := by
    rw [MeshState.isAlive]
    cases s.getMember id with
    | none => simp
    | some m => simp [Member.standing]
  rw [halive, h]
  refine exists_congr fun i => ?_
  rw [height_foldl_eq_coe]
  simp

section Both

variable {v : MemberUpdate} (hid : v.memberId = u.memberId)
  (hpeer : u.memberId ≠ peer.localInfo.workerId) (hv : v.info.workerId = v.memberId)
include hid hpeer hv

/-- Two updates leave the greatest of their standings and the one the peer held, in either
order. -/
theorem isAlive_both_iff (hu : u.info.workerId = u.memberId) {updates : List MemberUpdate}
    (hmem : ∀ w, w ∈ updates ↔ w = u ∨ w = v) :
    (peer.applyUpdates updates).state.isAlive u.memberId = true ↔
      ∃ i, IsGreatest {r | (peer.state.getMember u.memberId).map Member.standing = some r ∨
        u.standing = r ∨ v.standing = r} ⟨i, .alive⟩ := by
  rw [MeshState.isAlive_iff
    (SwimNode.getMember_applyUpdates (fun w hw => ?_) (fun w hw => ?_) _)]
  · simp [hmem, hid, or_and_right, exists_or]
  · obtain rfl | rfl := (hmem w).1 hw
    · exact hpeer
    · exact hid ▸ hpeer
  · obtain rfl | rfl := (hmem w).1 hw
    · exact hu
    · exact hv

/-- An update that brings the info of another worker goes to the entry of that worker, so only the
other update counts. -/
theorem isAlive_stray_iff (hu : u.info.workerId ≠ u.memberId) {updates : List MemberUpdate}
    (hupdates : updates = [u, v] ∨ updates = [v, u]) :
    (peer.applyUpdates updates).state.isAlive u.memberId = true ↔
      ∃ i, IsGreatest {r | (peer.state.getMember u.memberId).map Member.standing = some r ∨
        v.standing = r} ⟨i, .alive⟩ := by
  have hstray : ∀ node : SwimNode, node.localInfo.workerId = peer.localInfo.workerId →
      (node.applyUpdate u).state.getMember u.memberId = node.state.getMember u.memberId :=
    fun node hnode => SwimNode.getMember_applyUpdate_of_ne (hnode ▸ hpeer) (Ne.symm hu)
  have hstored : ∀ node : SwimNode, node.localInfo.workerId = peer.localInfo.workerId →
      (node.applyUpdate v).state.getMember u.memberId =
        absorb Member.standing (node.state.getMember u.memberId) v.member := by
    intro node hnode
    rw [SwimNode.getMember_applyUpdate (by rw [hid, hnode]; exact hpeer) hv, if_pos hid]
  have hafter : (peer.applyUpdates updates).state.getMember u.memberId =
      [v.member].foldl (absorb Member.standing) (peer.state.getMember u.memberId) := by
    obtain rfl | rfl := hupdates
    · exact (hstored _ (by simp)).trans (by rw [hstray peer rfl]; rfl)
    · exact (hstray _ (by simp)).trans (hstored peer rfl)
  rw [MeshState.isAlive_iff hafter]
  simp

end Both

/-- **A refutation wins at a peer**, whichever comes first, exactly in these cases. The claim is
refutable, or the peer already holds the node as alive in a later incarnation, or the claim brings
the info of another worker and is not stored for the node at all. And the peer holds no other news
of the node's end that is as new as the answer. -/
theorem refutation_wins_iff {self peer : SwimNode} {u : MemberUpdate}
    (hself : u.memberId = self.localInfo.workerId) (hclaim : u.state ≠ .alive)
    (hpeer : u.memberId ≠ peer.localInfo.workerId) :
    let refutation := (self.applyUpdate u).makeLocalUpdate
    (peer.applyUpdates [u, refutation]).state.isAlive u.memberId = true ∧
        (peer.applyUpdates [refutation, u]).state.isAlive u.memberId = true ↔
      (u.info.workerId = u.memberId → Refutable self u ∨
        ∃ m ∈ peer.state.getMember u.memberId, m.state = .alive ∧ u.incarnation < m.incarnation) ∧
      ∀ m ∈ peer.state.getMember u.memberId, m.state ≠ .alive →
        AnswerAbove self u m.incarnation := by
  intro refutation
  obtain ⟨hid, hinfo⟩ : refutation.memberId = u.memberId ∧
      refutation.info.workerId = refutation.memberId := by
    simp [refutation, SwimNode.makeLocalUpdate, hself]
  have hstanding : refutation.standing = ⟨refutation.incarnation, .alive⟩ := rfl
  have habove : ∀ k, AnswerAbove self u k ↔ k < refutation.incarnation :=
    answerAbove_iff hself hclaim
  simp only [refutable_iff, habove]
  by_cases hgenuine : u.info.workerId = u.memberId
  · have hboth := @isAlive_both_iff peer u refutation hid hpeer hinfo hgenuine
    rw [hboth (by simp), hboth (by simp [or_comm]), and_self, hstanding,
      Standing.greatest_alive_iff hclaim]
    simp [hgenuine, MemberUpdate.standing, Member.standing]
  · have honly := @isAlive_stray_iff peer u refutation hid hpeer hinfo hgenuine
    rw [honly (.inl rfl), honly (.inr rfl), and_self, hstanding]
    simp only [Standing.greater_alive_iff]
    simp [hgenuine, Member.standing]

end Refutation

/-- A worker that has just started. -/
def freshNode (id : MemberId) : SwimNode := .new (.new id) ⟨id, id, 0⟩

/-- A suspicion of the present incarnation is refuted. -/
theorem refutation_wins_suspected :
    let claim : MemberUpdate := ⟨"n", .suspect, 1, ⟨"n", "n", 0⟩⟩
    let refutation := ((freshNode "n").applyUpdate claim).makeLocalUpdate
    ((freshNode "p").applyUpdates [claim, refutation]).state.isAlive "n" = true ∧
      ((freshNode "p").applyUpdates [refutation, claim]).state.isAlive "n" = true :=
  (@refutation_wins_iff (freshNode "n") (freshNode "p") _ rfl (by decide) (by decide)).2
    ⟨fun _ => Or.inl (Or.inr (by decide)), nofun⟩

/-- **A refutation that loses**: a worker that was started again is in its first incarnation, and a
peer's report that it is dead is about its third. The worker raises its incarnation to the
second. -/
theorem refutation_loses :
    let claim : MemberUpdate := ⟨"n", .dead, 3, ⟨"n", "n", 0⟩⟩
    let refutation := ((freshNode "n").applyUpdate claim).makeLocalUpdate
    ((freshNode "p").applyUpdates [claim, refutation]).state.getMember "n" =
        some ⟨⟨"n", "n", 0⟩, .dead, 3⟩ ∧
      ((freshNode "p").applyUpdates [refutation, claim]).state.getMember "n" =
        some ⟨⟨"n", "n", 0⟩, .dead, 3⟩ := by
  decide

/-! ### A suspicion that outlives the member's departure

Only an acknowledgement or an `Alive` update clears a suspicion. A member that is suspected and
then leaves keeps its timer, and when that runs out the node overwrites `Left` with `Dead` in the
incarnation of the departure and gossips the older state. -/

namespace Departure

/-- A half-second protocol period and a two-second suspicion. -/
def config : SwimConfig where
  detector := { pingTimeoutMs := 250, protocolPeriodMs := 500, suspicionTimeout := fun _ => 2000 }
  seeds := []
  indirectPingCount := 3

/-- The info of a worker listening on its own port. -/
def info (id : MemberId) : WorkerInfo := ⟨id, id ++ ":7946", 0⟩

/-- A period during which the clock stands still. -/
def tickAt (now : Int) : SwimEvent :=
  .tick
    { gcAt := now, pingsAt := now, probeAt := fun _ => now, suspicionsAt := now, sentAt := now,
      memberOrder := fun _ => 0, pingOrder := id, suspectOrder := fun _ => 0, choice := 0 }

/-- A datagram from the peer that reports its state. -/
def news (state : MemberState) (incarnation : Nat) : SwimEvent :=
  .datagram "p:7946" (some (.sync [⟨"p", state, incarnation, info "p"⟩])) fun _ => 0

def node : SwimNode := (SwimNode.new (MeshState.new "w") (info "w")).joinSeeds config

/-- The peer joins, its ping times out and it is suspected, and then it leaves. -/
def leaves : List SwimEvent :=
  [news .alive 1, tickAt 0, tickAt 400, news .left 2]

end Departure

/-- A suspicion that runs out after the member left takes its standing from (2, `Left`) down to
(2, `Dead`). -/
theorem departed_member_declared_dead :
    let node := Departure.node.run Departure.config Departure.leaves
    let later := node.handle Departure.config (Departure.tickAt 3000)
    stored node.state.members "p" = some ⟨2, .left⟩ ∧
      stored later.state.members "p" = some ⟨2, .dead⟩ ∧
      (⟨2, .dead⟩ : Standing) < ⟨2, .left⟩ := by
  refine ⟨by decide +kernel, by decide +kernel, ?_⟩
  exact Standing.lt_iff.mpr (.inr ⟨rfl, by decide⟩)

/-- The same run without the late period is orderly, so no standing falls along it. -/
theorem membership_never_regresses_departure :
    Departure.node.standing "p" ≤
      (Departure.node.run Departure.config Departure.leaves).standing "p" := by
  exact (membership_never_regresses Departure.config Departure.node Departure.leaves
    (by decide +kernel) "p").1

end Swim

end Flexiq
