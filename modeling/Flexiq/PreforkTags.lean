import Flexiq.PreforkControl

/-!
# Whose result it is

The number of a dispatch stands beside the job wherever the job goes, and beside every frame that
reports it. In every run what the number stands beside belongs to that dispatch: the entry of a
slot, the work of a child, the frames in a pipe, what a reader or the watchdog holds, and at the
end the result on the result channel.
-/

namespace Flexiq

open Function List Option Prefork

variable {l : List Job} {d : Nat} {x : Child}

def Names (dispatched : List Job) (d : Nat) (id : JobId) : Prop :=
  (dispatched[d]?).map Job.id = some id

/-- The jobs of a child are those of their dispatches, and so are the results in its pipe. -/
structure Child.Tagged (dispatched : List Job) (x : Child) : Prop where
  stdin : ∀ jd ∈ x.stdin, dispatched[jd.2]? = some jd.1
  running : ∀ jd ∈ x.running, dispatched[jd.2]? = some jd.1
  stdout : ∀ fd ∈ x.stdout, ∀ r, fd.1.result = some r → Names dispatched fd.2 r.jobId

/-- What a thread holds belongs to the dispatch it holds it for. -/
def PreforkPc.Vouches (dispatched : List Job) : PreforkPc → Prop
  | .dispatcher (.filled _ d job) => dispatched[d]? = some job
  | .reader _ _ (.hand d r) | .reader _ _ (.token d r) | .reader _ _ (.paid d r) =>
    Names dispatched d r.jobId
  | .watchdog (.taken _ a) | .watchdog (.killed _ a) | .watchdog (.paid _ a) =>
    Names dispatched a.dispatch a.jobId
  | _ => True

/-- Everything that carries the number of a dispatch belongs to that dispatch. -/
structure Prefork.Tagged (s : Prefork) (G : PreforkThread → PreforkPc) : Prop where
  slot : ∀ i a, s.slots i = some a → Names s.dispatched a.dispatch a.jobId
  child : ∀ c, (s.children c).Tagged s.dispatched
  place : ∀ t, (G t).Vouches s.dispatched
  emitted : ∀ e ∈ s.emitted, Names s.dispatched e.dispatch e.result.jobId

/-! ## A new dispatch -/

theorem getElem?_append_of_some {job : Job} (h : l[d]? = some job) (x : Job) :
    (l ++ [x])[d]? = some job := by
  obtain ⟨hlt, -⟩ := List.getElem?_eq_some_iff.1 h
  rw [List.getElem?_append_left hlt, h]

/-- A dispatch keeps its job when more jobs are dispatched. -/
theorem Names.append {id : JobId} (h : Names l d id) (x : Job) : Names (l ++ [x]) d id := by
  obtain ⟨job, hjob, rfl⟩ := map_eq_some_iff.1 h
  exact map_eq_some_iff.2 ⟨job, getElem?_append_of_some hjob x, rfl⟩

theorem Names.of_getElem? {job : Job} (h : l[d]? = some job) : Names l d job.id := by
  rw [Names, h]
  rfl

/-- A child stays tagged when another job is dispatched. -/
theorem Child.Tagged.append (h : x.Tagged l) (job : Job) : x.Tagged (l ++ [job]) where
  stdin jd hjd := getElem?_append_of_some (h.stdin jd hjd) job
  running jd hjd := getElem?_append_of_some (h.running jd hjd) job
  stdout fd hfd r hr := (h.stdout fd hfd r hr).append job

theorem Child.Tagged.new (l : List Job) (i : Nat) : (Child.new i).Tagged l where
  stdin _ h := by cases h
  running _ h := by cases h
  stdout _ h := by cases h

/-- What a thread vouches for outlasts further dispatches. -/
theorem PreforkPc.Vouches.append {g : PreforkPc} (h : g.Vouches l) (job : Job) :
    g.Vouches (l ++ [job]) := by
  rcases g with p | ⟨_, c, p⟩ | p | _
  · cases p with
    | filled => exact getElem?_append_of_some h job
    | _ => trivial
  · cases p <;> first | trivial | exact Names.append h job
  · cases p <;> first | trivial | exact Names.append h job
  · trivial

/-! ## Steps -/

namespace Prefork.Tagged

variable {n : Nat} {s s' : Prefork} {G : PreforkThread → PreforkPc} {t : PreforkThread}
  {g : PreforkPc}

theorem place_update (h : ∀ u, (G u).Vouches s.dispatched) (hg : g.Vouches s.dispatched)
    (u : PreforkThread) : (update G t g u).Vouches s.dispatched :=
  (forall_update_iff G fun _ g => g.Vouches s.dispatched).2 ⟨hg, fun u _ => h u⟩ u

/-- A step that dispatches nothing and fills no slot keeps the tags. -/
theorem same (h : s.Tagged G) (hdispatched : s'.dispatched = s.dispatched)
    (hslots : ∀ i a, s'.slots i = some a → s.slots i = some a)
    (hchild : ∀ c, (s'.children c).Tagged s.dispatched)
    (hemitted : ∀ e ∈ s'.emitted, Names s.dispatched e.dispatch e.result.jobId)
    (hg : g.Vouches s.dispatched) : s'.Tagged (update G t g) where
  slot i a ha := hdispatched ▸ h.slot i a (hslots i a ha)
  child c := hdispatched ▸ hchild c
  place u := hdispatched ▸ place_update h.place hg u
  emitted e he := hdispatched ▸ hemitted e he

theorem child_update (h : s.Tagged G) {c : Nat} (hx : x.Tagged s.dispatched) (c' : Nat) :
    (update s.children c x c').Tagged s.dispatched :=
  (forall_update_iff s.children fun _ x => x.Tagged s.dispatched).2 ⟨hx, fun c _ => h.child c⟩ c'

/-- So does a step inside one child that leaves the child tagged. -/
theorem inside (h : s.Tagged G) (c : Nat) {f : Child → Child}
    (hf : (f (s.children c)).Tagged s.dispatched) (hg : g.Vouches s.dispatched) :
    (s.modify c f).Tagged (update G t g) :=
  h.same rfl (fun _ _ => id) (h.child_update hf) h.emitted hg

/-- A result that names the job of its dispatch may be emitted. -/
theorem emits (h : s.Tagged G) {e : Emitted} (he : Names s.dispatched e.dispatch e.result.jobId) :
    ∀ e' ∈ s.emitted ++ [e], Names s.dispatched e'.dispatch e'.result.jobId := by
  intro e' he'
  obtain he' | he' := mem_append.1 he'
  · exact h.emitted e' he'
  · rw [mem_singleton.1 he']
    exact he

/-- A dispatch is tagged with the next number, and its slot holds that tag. -/
theorem dispatches (h : s.Tagged G) (i : Nat) (job : Job) (now : Int)
    (hg : g.Vouches (s.dispatched ++ [job])) :
    Prefork.Tagged { s.drop i with
        slots := update s.slots i (some (.of job now s.dispatched.length))
        dispatched := s.dispatched ++ [job] } (update G t g) where
  slot j a ha := by
    change update s.slots i _ j = some a at ha
    obtain ⟨rfl, rfl⟩ | ⟨-, ha⟩ := found_update ha
    · exact Names.of_getElem? List.getElem?_concat_length
    · exact (h.slot j a ha).append job
  child c := (h.child c).append job
  place := (forall_update_iff G _).2 ⟨hg, fun u _ => (h.place u).append job⟩
  emitted e he := (h.emitted e he).append job

/-- A frame about the running job names the job under its tag. -/
theorem reports (h : x.Tagged l) (f : Job → Frame)
    (hf : ∀ job r, (f job).result = some r → r.jobId = job.id) :
    ∀ fd ∈ x.stdout ++ x.running.toList.map fun jd => (f jd.1, jd.2), ∀ r,
      fd.1.result = some r → Names l fd.2 r.jobId := by
  intro fd hfd r hr
  obtain hfd | hfd := mem_append.1 hfd
  · exact h.stdout fd hfd r hr
  · obtain ⟨jd, hjd, rfl⟩ := mem_map.1 hfd
    rw [hf jd.1 r hr]
    exact .of_getElem? (h.running jd (mem_toList.1 hjd))

/-- Every step keeps what carries a number with its dispatch. -/
theorem step (h : s.Tagged G) {op : PreforkOp} {env : PreforkEnv} (hp : (G t).Permits n op) :
    (Prefork.exec op env s).2.Tagged (update G t ((G t).next op (Prefork.exec op env s).1)) := by
  have hplace := h.place t
  -- most steps touch neither a slot nor a child nor the result channel
  have still : ∀ {s' : Prefork} {g : PreforkPc}, s'.dispatched = s.dispatched →
      s'.slots = s.slots → s'.children = s.children → s'.emitted = s.emitted →
      g.Vouches s.dispatched → s'.Tagged (update G t g) := by
    intro _ g hd hs hc he hg
    exact h.same hd (fun i a ha => hs ▸ ha) (hc ▸ h.child) (he ▸ h.emitted) hg
  generalize G t = g at hp hplace
  cases hp with
  | isChildDead =>
    refine still rfl rfl rfl rfl ?_
    simp only [PreforkPc.next]
    cases (exec _ env s).1 <;> trivial
  | spawn | respawn =>
    obtain ⟨now, ok⟩ := env
    cases ok
    · exact still rfl rfl rfl rfl trivial
    · exact h.same rfl (fun _ _ => id) (h.child_update (.new _ _)) h.emitted trivial
  | setWriter | setProcess | resetInFlight | load | addInFlight | now =>
    exact still rfl rfl rfl rfl trivial
  | resetSlot | rollback => exact h.same rfl (fun _ _ => found_of_none) h.child h.emitted trivial
  | @spawnReader k i c | @readerExit i c | @childExit c =>
    have hc := h.child c
    simp only [exec, PreforkPc.next]
    exact h.inside c ⟨hc.stdin, hc.running, hc.stdout⟩ trivial
  | setSlot job => exact h.dispatches _ job env.now List.getElem?_concat_length
  | @writeJob i d job =>
    simp only [exec, PreforkPc.next]
    split
    · exact still rfl rfl rfl rfl trivial
    · next c _ =>
      split
      · have hc := h.child c
        dsimp only
        refine h.inside c ?_ trivial
        refine ⟨fun jd hjd => ?_, hc.running, hc.stdout⟩
        obtain hjd | hjd := mem_append.1 hjd
        · exact hc.stdin jd hjd
        · rw [mem_singleton.1 hjd]
          exact hplace
      · exact still rfl rfl rfl rfl trivial
  | @read i c =>
    simp only [exec, PreforkPc.next]
    split
    · exact still rfl rfl rfl rfl trivial
    · next f d rest hout =>
      have hc := h.child c
      have hrest : ∀ fd ∈ (f, d) :: rest, ∀ r, fd.1.result = some r →
          Names s.dispatched fd.2 r.jobId := hout ▸ hc.stdout
      dsimp only
      refine h.inside c ?_ ?_
      · exact ⟨hc.stdin, hc.running, fun fd hfd => hrest fd (.tail _ hfd)⟩
      simp only [Option.elim]
      rcases hr : f.result with _ | r
      · trivial
      · exact hrest (f, d) (.head _) r hr
  | @takeSlot i c d r =>
    have hc := h.child c
    simp only [exec, PreforkPc.next]
    split
    · exact h.same rfl (fun _ _ => id) (h.child_update ⟨hc.stdin, hc.running, hc.stdout⟩)
        h.emitted trivial
    · exact h.same rfl (fun _ _ => found_of_none)
        (h.child_update ⟨hc.stdin, hc.running, hc.stdout⟩) h.emitted hplace
  | readerPays | watchdogPays => exact still rfl rfl rfl rfl hplace
  | readerEmits | watchdogEmits =>
    exact h.same rfl (fun _ _ => id) h.child (h.emits hplace) trivial
  | takeIfExpired i =>
    simp only [exec, PreforkPc.next]
    split
    · exact still rfl rfl rfl rfl trivial
    · next a ha =>
      split
      · exact h.same rfl (fun _ _ => found_of_none) h.child h.emitted (h.slot i a ha)
      · exact still rfl rfl rfl rfl trivial
  | @kill i a =>
    simp only [exec, PreforkPc.next]
    rcases s.processes i with _ | c
    · exact still rfl rfl rfl rfl hplace
    · have hc := h.child c
      refine h.inside (g := .watchdog (.killed i a)) c (f := fun x => { x with alive := false }) ?_
        hplace
      exact ⟨hc.stdin, hc.running, hc.stdout⟩
  | @childStart c =>
    have hc := h.child c
    simp only [exec, PreforkPc.next]
    exact h.inside c ⟨fun jd hjd => hc.stdin jd (mem_of_mem_tail hjd),
      fun jd hjd => hc.stdin jd (mem_of_mem_head? hjd), hc.stdout⟩ trivial
  | @childFinish c o =>
    have hc := h.child c
    simp only [exec, PreforkPc.next]
    refine h.inside c ⟨hc.stdin, fun jd hjd => (by cases hjd), reports hc
      (fun job => .fromJobResult (o.of job)) fun job r hr => ?_⟩ trivial
    rw [Frame.result_fromJobResult] at hr
    cases hr
    exact Outcome.jobId_of job o
  | @childReport c r =>
    have hc := h.child c
    simp only [exec, PreforkPc.next]
    refine h.inside c ⟨hc.stdin, hc.running, reports hc (fun _ => r.frame)
      fun job r' hr => ?_⟩ trivial
    rw [SideReport.result_frame] at hr
    cases hr

end Prefork.Tagged

end Flexiq
