import Flexiq.Membership

/-!
# The hash ring

A worker is placed on the ring under the hashes of its virtual nodes, and a task name goes to the
worker of the first virtual node clockwise from its hash. As long as no two virtual nodes have the
same hash, a ring is decided by the set of the workers on it (`Carries.ring_eq`), whatever the order
in which they came and went. One more worker can only draw names to itself (`ring_moves_least`). And
the ring of a gossip node carries the members that its map holds as alive (`ring_holds_alive`).
-/

namespace Flexiq.Swim

/-- The workers by hash, and how many entries each gets. -/
structure HashRing where
  ring : UInt64 → Option MemberId
  virtualNodes : Nat

namespace HashRing

section

variable (hash : String → UInt64)

def new (virtualNodes : Nat) : HashRing := ⟨fun _ => none, virtualNodes⟩

/-- The hash of a virtual node. -/
def vnode (workerId : MemberId) (i : Nat) : UInt64 := hash s!"{workerId}-vnode-{i}"

def addWorker (self : HashRing) (workerId : MemberId) : HashRing :=
  { self with
    ring := (List.range self.virtualNodes).foldl
      (fun ring i => Function.update ring (vnode hash workerId i) (some workerId)) self.ring }

def removeWorker (self : HashRing) (workerId : MemberId) : HashRing :=
  { self with ring := fun k => (self.ring k).filter (· != workerId) }

/-- The worker of the first entry clockwise from the hash of the key. -/
def preferredWorker (self : HashRing) (key : String) : Option MemberId :=
  let h := (hash key).toNat
  (List.range' h (2 ^ 64 - h) ++ List.range' 0 h).findSome? fun k => self.ring (.ofNat k)

/-- No two virtual nodes of the workers share a hash. -/
def Distinct (n : Nat) (W : Set MemberId) : Prop :=
  ∀ v ∈ W, ∀ w ∈ W, ∀ i < n, ∀ j < n, vnode hash v i = vnode hash w j → v = w

/-- The entries are the virtual nodes of the workers. -/
def Carries (self : HashRing) (W : Set MemberId) : Prop :=
  ∀ k v, self.ring k = some v ↔ v ∈ W ∧ ∃ i < self.virtualNodes, vnode hash v i = k

end

variable {hash : String → UInt64} {self r : HashRing} {W : Set MemberId} {w : MemberId}

theorem Distinct.mono {n : Nat} {U : Set MemberId} (h : Distinct hash n U) (hW : W ⊆ U) :
    Distinct hash n W := fun v hv w hw => h v (hW hv) w (hW hw)

/-- Rings that carry the same workers are the same. -/
theorem Carries.ring_eq (h : self.Carries hash W) (hr : r.Carries hash W)
    (hn : r.virtualNodes = self.virtualNodes) : self.ring = r.ring := by
  funext k
  refine Option.ext fun v => ?_
  rw [h k v, hr k v, hn]

theorem carries_new (n : Nat) : (new n).Carries hash ∅ := fun k v => by simp [new]

theorem place (ring : UInt64 → Option MemberId) (n : Nat) (k : UInt64) :
    (List.range n).foldl (fun ring i => Function.update ring (vnode hash w i) (some w)) ring k =
      if ∃ i < n, vnode hash w i = k then some w else ring k := by
  induction n with
  | zero => simp
  | succ n ih =>
    rw [List.range_succ, List.foldl_append, List.foldl_cons, List.foldl_nil,
      Function.update_apply, ih]
    simp only [Nat.lt_succ_iff_lt_or_eq, or_and_right, exists_or, exists_eq_left,
      eq_comm (a := k)]
    split <;> simp_all

theorem Carries.addWorker (h : self.Carries hash W)
    (hd : Distinct hash self.virtualNodes (insert w W)) :
    (self.addWorker hash w).Carries hash (insert w W) := by
  intro k v
  have hk : (self.addWorker hash w).ring k = _ := place self.ring self.virtualNodes k
  rw [hk]
  split
  · next hw =>
    obtain ⟨i, hi, rfl⟩ := hw
    constructor
    · rintro ⟨⟩
      exact ⟨Set.mem_insert w W, i, hi, rfl⟩
    · rintro ⟨hv, j, hj, hvj⟩
      rw [hd v hv w (Set.mem_insert w W) j hj i hi hvj]
  · next hw =>
    rw [h k v]
    refine ⟨fun ⟨hv, hi⟩ => ⟨Set.mem_insert_of_mem w hv, hi⟩, fun ⟨hv, hi⟩ => ⟨?_, hi⟩⟩
    obtain rfl | hv := hv
    · exact absurd hi hw
    · exact hv

theorem Carries.removeWorker (h : self.Carries hash W) (w : MemberId) :
    (self.removeWorker w).Carries hash (W \ {w}) := by
  intro k v
  have hk : (self.removeWorker w).ring k = some v ↔ self.ring k = some v ∧ v ≠ w := by
    simp [HashRing.removeWorker, Option.filter_eq_some_iff]
  rw [hk, h k v]
  exact ⟨fun ⟨⟨hv, hi⟩, hne⟩ => ⟨⟨hv, hne⟩, hi⟩, fun ⟨⟨hv, hne⟩, hi⟩ => ⟨⟨hv, hi⟩, hne⟩⟩

/-- **One more worker moves only what it must**: a key stays where it is or goes to the new worker,
and when that worker leaves, every key is back. -/
theorem ring_moves_least (h : self.Carries hash W) (hw : w ∉ W)
    (hd : Distinct hash self.virtualNodes (insert w W)) (key : String) :
    ((self.addWorker hash w).preferredWorker hash key = some w ∨
      (self.addWorker hash w).preferredWorker hash key = self.preferredWorker hash key) ∧
    ((self.addWorker hash w).removeWorker w).preferredWorker hash key =
      self.preferredWorker hash key := by
  constructor
  · have hring : ∀ k, (self.addWorker hash w).ring k = some w ∨
        (self.addWorker hash w).ring k = self.ring k := fun k => by
      have hk : (self.addWorker hash w).ring k = _ := place self.ring self.virtualNodes k
      rw [hk]
      split
      · exact .inl rfl
      · exact .inr rfl
    simp only [preferredWorker]
    -- walk to the first position that has an entry now
    generalize List.range' _ (2 ^ 64 - _) ++ List.range' 0 _ = positions
    induction positions with
    | nil => exact .inr rfl
    | cons k rest ih =>
      rw [List.findSome?_cons, List.findSome?_cons]
      obtain hk | hk := hring (.ofNat k)
      · rw [hk]
        exact .inl rfl
      · rw [hk]
        cases self.ring (.ofNat k) with
        | some v => exact .inr rfl
        | none => exact ih
  · have hremove := (h.addWorker hd).removeWorker w
    rw [Set.insert_sdiff_self_of_notMem hw] at hremove
    rw [preferredWorker, hremove.ring_eq h rfl]
    rfl

/-- Worker names of different lengths, hashed to their lengths. -/
theorem distinct_length : Distinct (fun s => .ofNat s.length) 1 {"second", "w1"} := by
  rintro _ (rfl | rfl) _ (rfl | rfl) i _ j _
  all_goals
    obtain ⟨rfl, rfl⟩ : i = 0 ∧ j = 0 := by omega
    decide +kernel

/-- A second worker comes and goes. -/
theorem ring_moves_least_second :
    let hash : String → UInt64 := fun s => .ofNat s.length
    let ring := (new 1).addWorker hash "w1"
    (ring.addWorker hash "second").preferredWorker hash "a longer key" = some "second" ∧
    ((ring.addWorker hash "second").removeWorker "second").preferredWorker hash "a longer key" =
      ring.preferredWorker hash "a longer key" := by
  refine ⟨by decide +kernel, (ring_moves_least (W := insert "w1" ∅)
    ((carries_new 1).addWorker (distinct_length.mono ?_)) ?_ (distinct_length.mono ?_) _).2⟩
  · simp
  · simp
  · simp

end HashRing

/-! ## The ring of a gossip node -/

def RingCall.act (hash : String → UInt64) : RingCall → HashRing → HashRing
  | addWorker workerId, ring => ring.addWorker hash workerId
  | removeWorker workerId, ring => ring.removeWorker workerId

def MeshState.ring (hash : String → UInt64) (virtualNodes : Nat) (self : MeshState) : HashRing :=
  self.ringCalls.foldr (RingCall.act hash) (.new virtualNodes)

def placed : List RingCall → Set MemberId
  | [] => ∅
  | .addWorker w :: calls => insert w (placed calls)
  | .removeWorker w :: calls => placed calls \ {w}

theorem placed_subset (calls : List RingCall) : placed calls ⊆ {w | .addWorker w ∈ calls} := by
  induction calls with
  | nil => exact Set.empty_subset _
  | cons call calls ih =>
    cases call with
    | addWorker w =>
      rintro v (rfl | hv)
      · exact List.mem_cons_self
      · exact List.mem_cons_of_mem _ (ih hv)
    | removeWorker w => exact fun v hv => List.mem_cons_of_mem _ (ih hv.1)

/-- **Calls build the ring of the workers they leave on it**, if no two virtual nodes of the workers
ever added share a hash. -/
theorem carries_placed {hash : String → UInt64} {n : Nat} {calls : List RingCall}
    (hd : HashRing.Distinct hash n {w | .addWorker w ∈ calls}) :
    (calls.foldr (RingCall.act hash) (.new n)).Carries hash (placed calls) ∧
      (calls.foldr (RingCall.act hash) (.new n)).virtualNodes = n := by
  induction calls with
  | nil => exact ⟨HashRing.carries_new n, rfl⟩
  | cons call calls ih =>
    obtain ⟨hcarries, hn⟩ := ih (hd.mono fun w hw => List.mem_cons_of_mem _ hw)
    cases call with
    | addWorker w =>
      exact ⟨hcarries.addWorker (hn.symm ▸ hd.mono (placed_subset (.addWorker w :: calls))), hn⟩
    | removeWorker w => exact ⟨hcarries.removeWorker w, hn⟩

namespace SwimNode

/-- What both writes of the mesh state keep, a round keeps. -/
theorem state_handle {P : MeshState → Prop} {config : SwimConfig} {self : SwimNode}
    (hup : ∀ s m, P s → P (s.upsertMember m)) (hdead : ∀ s id, P s → P (s.markDead id))
    (e : SwimEvent) (h : P self.state) : P (self.handle config e).state := by
  have hupdates : ∀ updates, P (self.applyUpdates updates).state := fun updates => by
    refine List.foldlRecOn (motive := fun node : SwimNode => P node.state) _ _ h
      fun node hnode u _ => ?_
    simp only [applyUpdate]
    split_ifs
    all_goals first
      | exact hnode
      | exact hup _ _ hnode
  unfold handle
  split
  · exact h
  cases e with
  | tick t =>
    have hall := List.foldlRecOn (motive := fun node : SwimNode => P node.state)
      ((self.checkPings config t).newlyDead config t).1 declareDead
      (b := { self.checkPings config t with
        failureDetector := ((self.checkPings config t).newlyDead config t).2 })
      ((state_checkPings t self).symm ▸ h) fun _ hnode id _ => hdead _ id hnode
    simp only [protocolTick]
    generalize List.foldl declareDead _ _ = declared at hall ⊢
    split <;> exact hall
  | datagram sender msg order =>
    rcases msg with _ | msg
    · exact h
    cases msg with
    | compound primary updates =>
      exact (state_handlePrimary order _ primary sender).symm ▸ hupdates _
    | sync updates => exact hupdates _
    | _ => exact (state_handlePrimary order self _ sender).symm ▸ h
  | shutdown order => exact (state_broadcastLeave order self).symm ▸ h

end SwimNode

namespace MeshState

theorem isAlive_upsertMember (s : MeshState) (m : Member) (id : MemberId) :
    (s.upsertMember m).isAlive id =
      if id = m.info.workerId then m.state == .alive else s.isAlive id := by
  simp only [isAlive, getMember, upsertMember]
  by_cases hm : id = m.info.workerId
  · subst hm
    simp
  · rw [AList.lookup_insert_ne hm, if_neg hm]

theorem isAlive_markDead (s : MeshState) (d id : MemberId) :
    (s.markDead d).isAlive id = if id = d then false else s.isAlive id := by
  simp only [isAlive, getMember, markDead]
  by_cases hd : id = d
  · subst hd
    cases hm : s.members.lookup id <;> simp [hm]
  · rw [if_neg hd]
    split
    · rw [AList.lookup_insert_ne hd]
    · rfl

end MeshState

/-- **The ring holds the alive members**, whatever the node was told: a position of the ring belongs
to a worker other than the local one exactly if the map holds that worker as alive and the position
is that of one of its virtual nodes. -/
theorem ring_holds_alive (hash : String → UInt64) (n : Nat) (config : SwimConfig)
    (info : WorkerInfo) (events : List SwimEvent) :
    let state := (((SwimNode.new (.new info.workerId) info).joinSeeds config).run config
      events).state
    HashRing.Distinct hash n {w | .addWorker w ∈ state.ringCalls} →
      ∀ id, id ≠ info.workerId → ∀ k, (state.ring hash n).ring k = some id ↔
        state.isAlive id = true ∧ ∃ i < n, HashRing.vnode hash id i = k := by
  intro state hd id hid k
  have hplaced : id ∈ placed state.ringCalls ↔ state.isAlive id = true := by
    refine List.foldlRecOn (motive := fun node : SwimNode => id ∈ placed node.state.ringCalls ↔
      node.state.isAlive id = true) _ _ ?_ fun node hnode e _ =>
        SwimNode.state_handle (P := fun s => id ∈ placed s.ringCalls ↔ s.isAlive id = true)
          (fun s m hs => ?_) (fun s d hs => ?_) e hnode
    · have hjoin : ((SwimNode.new (.new info.workerId) info).joinSeeds config).state =
          .new info.workerId := SwimNode.state_foldl (fun _ _ => by rfl) _ _
      rw [hjoin]
      simp [MeshState.new, MeshState.isAlive, MeshState.getMember, placed, hid]
    · rw [MeshState.isAlive_upsertMember]
      simp only [MeshState.upsertMember]
      grind [placed]
    · rw [MeshState.isAlive_markDead]
      simp only [MeshState.markDead, placed]
      grind
  obtain ⟨hcarries, hn⟩ := carries_placed hd
  rw [MeshState.ring, hcarries k id, hn, hplaced]

def discovered : SwimNode :=
  ((SwimNode.new (.new "w1") (Departure.info "w1")).joinSeeds Departure.config).run Departure.config
    [.datagram "second" (some (.sync [⟨"second", .alive, 1, Departure.info "second"⟩])) fun _ => 0]

/-- The peer is on the ring of the node. -/
theorem ring_holds_alive_discovered :
    let hash : String → UInt64 := fun s => .ofNat s.length
    (discovered.state.ring hash 1).ring (HashRing.vnode hash "second" 0) = some "second" := by
  intro hash
  have hcalls : discovered.state.ringCalls = [.addWorker "second", .addWorker "w1"] := by
    decide +kernel
  have hd : HashRing.Distinct hash 1 {w | .addWorker w ∈ discovered.state.ringCalls} := by
    refine HashRing.distinct_length.mono fun w hw => ?_
    simpa [hcalls] using hw
  exact (ring_holds_alive hash 1 _ (Departure.info "w1") _ hd "second" (by decide) _).2
    ⟨by decide +kernel, 0, by decide, rfl⟩

end Flexiq.Swim
