import Flexiq.AuthCalls

/-!
# The first administrator

Setup is open to everyone as long as there are no users. It counts them, and if there are none it
creates an administrator by compare-and-set. The count is one read and the creation starts with
another: when the users document changes in between, the compare-and-set starts from the changed
document, and nothing counts again. Two setups under different names can thus both succeed
(`two_setups_two_admins`). As long as each creation reads the very document that was counted, there
is at most one, and it happens while the document is empty (`setup_creates_one_admin`).
-/

namespace Flexiq.Auth

section

variable {Text : Type} {codec : AuthCodec Text}
variable {op : AuthOp Text} {st : AuthState Text}

/-- What a call may do to the users document: only a setup that counted no users reads or writes
it as one, and nothing takes the last user away. -/
def Careful (codec : AuthCodec Text) : AuthOp Text → Prop
  | .getSetting why key => ∀ counted, why = .setup counted → key = usersKey ∧ codec.rows counted = ∅
  | .setSettingIf why key expected value => Written codec key value ∧
      ∀ counted, why = .setup counted → codec.rows expected = ∅
  | .setSetting _ key _ => key ≠ usersKey
  | .deleteSetting key => key ≠ usersKey
  | _ => True

/-- The document a setup reads to create its user is the one it counted. -/
def FindsCounted : (op : AuthOp Text) → op.Res → Prop
  | .getSetting why _, r => ∀ counted, why = .setup counted → ∀ stored time,
      r = some (stored, time) → stored = counted
  | _, _ => True

/-- The discipline of setups; it needs no ghost value. -/
def setupDiscipline (codec : AuthCodec Text) : Discipline (authSig Text) Unit where
  permits _ op := Careful codec op
  expects _ op r := FindsCounted op r
  next _ _ _ := ()
  done _ := True

theorem usersKey_ne_sessionKey (token : String) : sessionKey token ≠ usersKey := by
  intro h
  have hlist := congrArg String.toList h
  rw [sessionKey, String.toList_append] at hlist
  have hfive := congrArg (fun l => l[5]?) hlist
  simp [sessionPrefix, usersKey] at hfive

theorem Plain.careful (h : Plain codec op) : Careful codec op := by
  cases op with
  | getSetting why =>
    obtain rfl : why = .plain := h
    exact nofun
  | setSettingIf =>
    obtain ⟨rfl, hw⟩ := h
    exact ⟨hw, nofun⟩
  | setSetting =>
    obtain ⟨token, _, rfl, -⟩ := h
    exact usersKey_ne_sessionKey token
  | deleteSetting =>
    obtain ⟨token, rfl⟩ := h
    exact usersKey_ne_sessionKey token
  | _ => trivial

/-! ## Requests -/

/-- The request keeps to the discipline. -/
def Cautious {α : Type} (codec : AuthCodec Text) (p : AuthProg Text α) : Prop :=
  Prog.Tries (setupDiscipline codec) p () fun _ _ => True

theorem Makes.cautious {α : Type} {p : AuthProg Text α} (h : Makes (Careful codec) p) :
    Cautious codec p := by
  have hfollows : p.run.Follows (setupDiscipline codec) () fun g _ => g = () :=
    h.follows fun op hop => ⟨hop, fun _ => rfl⟩
  exact hfollows.mono fun _ _ _ _ _ => trivial

theorem Makes.cautious_of_plain {α : Type} {p : AuthProg Text α} (h : Makes (Plain codec) p) :
    Cautious codec p :=
  (h.mono fun _ => Plain.careful).cautious

theorem Cautious.bind {α β : Type} {p : AuthProg Text α} {f : α → AuthProg Text β}
    (hp : Cautious codec p) (hf : ∀ a, Cautious codec (f a)) : Cautious codec (p >>= f) :=
  Prog.Tries.bind (Prog.Tries.mono hp fun _ a _ => hf a)

variable [DecidableEq Text]

/-- The edit of a setup that counted no users: each attempt starts from the counted document. -/
theorem cautious_update {R : Type} {counted : Option Text} (hcounted : codec.rows counted = ∅)
    {mutate : JsonMap JsonRow → R × JsonMap JsonRow} (h : ∀ rows, Keeps rows (mutate rows).2)
    (attempts : Nat) : Cautious codec (update codec (.setup counted) usersKey mutate attempts) := by
  induction attempts with
  | zero => exact .throw _
  | succ attempts ih =>
    refine Prog.Tries.bind (Prog.Tries.perform rfl ?_ fun r hr a ha => ?_)
    · intro c hc
      cases hc
      exact ⟨rfl, hcounted⟩
    · obtain ⟨stored, time⟩ := a
      have hstored : stored = counted := by
        rcases r with _ | r
        · cases ha
        · cases ha
          exact hr counted rfl stored time rfl
      subst hstored
      dsimp only
      split
      · exact .pure trivial
      · next hne =>
        refine .bind (.perform rfl ?_ fun r _ a _ => ?_)
        · exact ⟨written_of_edit (h _) hne, fun c _ => hcounted⟩
        · obtain ⟨_, _⟩ := a
          dsimp only
          split
          · exact .pure trivial
          · exact ih

theorem cautious_setup (username password : Option String) :
    Cautious codec (setup codec username password) := by
  refine .bind (makes_requiredField _ _).cautious_of_plain fun username =>
    .bind (makes_requiredField _ _).cautious_of_plain fun password =>
    .bind (makes_orBadRequest _).cautious_of_plain fun _ =>
    .bind (makes_orBadRequest _).cautious_of_plain fun _ => ?_
  refine Prog.Tries.bind (Prog.Tries.bind (Prog.Tries.perform rfl ?_ fun r _ a _ => ?_))
  · exact nofun
  · obtain ⟨stored, _⟩ := a
    refine .pure ?_
    dsimp only
    split
    · exact .throw _
    · next hzero =>
      have hempty : codec.rows stored = ∅ := by
        by_contra hne
        obtain ⟨_, hk⟩ := exists_mem_of_ne_empty hne
        exact hzero (List.length_pos_of_mem (AList.mem_keys.1 hk))
      refine Cautious.bind ?_ fun created => (makes_orBadRequest created).cautious_of_plain
      refine .bind (Makes.cautious_of_plain ⟨trivial, fun _ => trivial⟩) fun now =>
        .bind (Makes.cautious_of_plain ⟨trivial, fun _ => trivial⟩) fun salt =>
        .bind ?_ fun _ => .pure trivial
      exact cautious_update hempty (touches_addUser _).keeps_rows _

theorem cautious_changePassword (cred : Credentials) (oldPassword newPassword : Option String) :
    Cautious codec (changePassword codec cred oldPassword newPassword) := by
  refine .bind (makes_gateRequest cred true).cautious_of_plain fun session =>
    .bind (makes_requiredField _ _).cautious_of_plain fun oldPassword =>
    .bind (makes_requiredField _ _).cautious_of_plain fun newPassword =>
    .bind (makes_orBadRequest _).cautious_of_plain fun _ =>
    .bind (makes_authenticate _ _).cautious_of_plain fun r => ?_
  rcases r with _ | ⟨user, time⟩
  · exact .throw _
  · have hupdate : Makes (Careful codec) (updatePassword codec user.username newPassword) := by
      refine .bind ⟨trivial, fun _ => trivial⟩ fun salt => makes_update ?_ ?_ ?_ _
      · exact nofun
      · exact fun _ _ hw => ⟨hw, nofun⟩
      · exact (touches_setHash _ _).keeps_rows
    refine .bind hupdate.cautious fun r => ?_
    obtain ⟨_, time⟩ := r
    refine .bind (makes_orBadRequest _).cautious_of_plain fun _ => .bind ?_ fun revoked => ?_
    · exact .bind (makes_scanPrefix _).cautious_of_plain fun found =>
        (makes_revokeEach _ _ found).cautious_of_plain
    · cases time with
      | none => exact .pure trivial
      | some =>
        exact .bind (Makes.cautious ⟨trivial, fun _ => trivial⟩) fun _ => Prog.Tries.pure trivial

/-! ## The store -/

/-- At most one user was created by a setup; it was the first, and there has been one since. -/
def OneCreated (codec : AuthCodec Text) (st : AuthState Text) : Prop :=
  st.created = [] ∨ ∃ before, st.created = [before] ∧ codec.rows before = ∅ ∧
    codec.rows (st.settings.lookup usersKey) ≠ ∅

/-- When a setup reads the users document to create its user, it is still as it was counted. -/
def CountedStill (st : AuthState Text) : AuthOp Text → Prop
  | .getSetting (.setup counted) key => st.settings.lookup key = counted
  | _ => True

instance (st : AuthState Text) : DecidablePred (CountedStill st) := fun op => by
  unfold CountedStill
  split <;> infer_instance

/-- The runs in which no creation is overtaken by another write of the users document. -/
abbrev setupRules (codec : AuthCodec Text) (τ : Type) :
    Rules (authMachine Text) (authClients codec) τ where
  mayStart _ _ _ := True
  mayStep st _ op _ := CountedStill st op

omit [DecidableEq Text] in
theorem OneCreated.of_eq {st' : AuthState Text} (h : OneCreated codec st)
    (hcreated : st'.created = st.created)
    (husers : st'.settings.lookup usersKey = st.settings.lookup usersKey) :
    OneCreated codec st' := by
  unfold OneCreated
  rw [hcreated, husers]
  exact h

omit [DecidableEq Text] in
/-- Storing a document with users in it, by a setup only over an empty one. -/
theorem OneCreated.write (h : OneCreated codec st) {why : Purpose Text} {key : String}
    {expected : Option Text} {value : Text}
    (hop : Careful codec (.setSettingIf why key expected value))
    (hfound : st.settings.lookup key = expected) :
    OneCreated codec { st.record why expected with settings := st.settings.insert key value } := by
  obtain ⟨⟨rfl, hvalue⟩, hsetup⟩ := hop
  have hafter : codec.rows ((st.settings.insert usersKey value).lookup usersKey) ≠ ∅ := by
    rwa [AList.lookup_insert]
  cases why with
  | plain | password =>
    obtain hnone | ⟨before, hone, hempty, -⟩ := h
    · exact .inl hnone
    · exact .inr ⟨before, hone, hempty, hafter⟩
  | setup counted =>
    have hempty := hsetup counted rfl
    -- had there been a creation before, the document would not be empty
    have hnone : st.created = [] := by
      obtain hnone | ⟨before, -, -, hne⟩ := h
      · exact hnone
      · exact absurd (hfound ▸ hempty) hne
    exact .inr ⟨expected, congrArg (expected :: ·) hnone, hempty, hafter⟩

theorem OneCreated.act (h : OneCreated codec st) (hop : Careful codec op) (env : AuthEnv) :
    OneCreated codec (op.act env st).2 := by
  cases op with
  | setSettingIf =>
    simp only [AuthOp.act]
    split
    · exact h
    · split
      · next hfound => exact h.write hop hfound
      · exact h
  | getSetting | listSettings =>
    simp only [AuthOp.act]
    split <;> exact h
  | setSetting grant key =>
    have hne : usersKey ≠ key := hop.symm
    simp only [AuthOp.act]
    split
    · exact h
    · exact h.of_eq rfl (AList.lookup_insert_ne hne)
  | deleteSetting key =>
    have hne : usersKey ≠ key := hop.symm
    simp only [AuthOp.act]
    split
    · exact h
    · exact h.of_eq rfl (AList.lookup_erase_ne hne)
  | _ => exact h.of_eq rfl rfl

theorem findsCounted_exec {τ : Type} {t : τ} {env : AuthEnv}
    (hrule : (setupRules codec τ).mayStep st t op env) : FindsCounted op (op.exec env st).1 := by
  cases op with
  | getSetting why key =>
    rintro counted rfl _ _ hr
    have hlookup : st.settings.lookup key = counted := hrule
    simp only [AuthOp.exec, AuthOp.act] at hr
    split at hr
    · cases hr
    · cases hr
      exact hlookup
  | _ => trivial

theorem setup_sound (τ : Type) [DecidableEq τ] :
    Pool.Sound (setupRules codec τ) (setupDiscipline codec) fun st _ => OneCreated codec st where
  start _ _ _ call h _ _ := ⟨(), h, follows_request Makes.cautious_of_plain cautious_setup
    cautious_changePassword call⟩
  step _ _ _ _ env h hop hrule := ⟨findsCounted_exec hrule, (h.act hop env).of_eq rfl rfl⟩

/-- **One administrator.** In every run in which each creation reads the users document that its
setup counted, setups create at most one user, and only when the document holds none. -/
theorem setup_creates_one_admin {τ : Type} [DecidableEq τ] {st : AuthState Text} (hst : st.Fresh)
    {c : Pool (authMachine Text) τ} (h : Pool.Reaches (setupRules codec τ) (Pool.idle st) c) :
    c.state.created.length ≤ 1 ∧ ∀ before ∈ c.state.created, codec.rows before = ∅ := by
  have hstart : Pool.Certified (setupDiscipline codec) (fun st _ => OneCreated codec st)
      (.idle st : Pool (authMachine Text) τ) fun _ => () :=
    .idle (.inl hst.created) fun _ => trivial
  obtain ⟨_, hone, -⟩ := (setup_sound τ).reachable hstart h
  obtain hnone | ⟨_, hbefore, hempty, -⟩ := hone
  · rw [hnone]
    exact ⟨Nat.zero_le 1, nofun⟩
  · rw [hbefore]
    exact ⟨le_rfl, fun b hb => by cases List.mem_singleton.1 hb; exact hempty⟩

end

/-! ## Concrete requests -/

/-- A text is the document it prints. -/
inductive PlainText where
  | users (rows : JsonMap JsonRow)
  | session (session : Session)

/-- The texts are compared by what they hold. -/
def PlainText.content : PlainText → List (Sigma fun _ : String => JsonRow) ⊕ Session
  | users rows => .inl rows.entries
  | session s => .inr s

theorem PlainText.content_injective {a b : PlainText} : a.content = b.content ↔ a = b := by
  constructor
  · intro h
    cases a <;> cases b <;> simp only [content, Sum.inl.injEq, Sum.inr.injEq, reduceCtorEq] at h
    · rw [AList.ext h]
    · rw [h]
  · exact fun h => congrArg content h

instance : DecidableEq PlainText := fun a b =>
  decidable_of_iff (a.content = b.content) PlainText.content_injective

/-- A document in the order of its keys. -/
def JsonMap.sorted {V : Type} (m : JsonMap V) : JsonMap V :=
  ⟨m.entries.insertionSort fun a b => a.1 ≤ b.1,
    (List.perm_nodupKeys (List.perm_insertionSort ..)).2 m.nodupKeys⟩

theorem JsonMap.sorted_perm {V : Type} {m m' : JsonMap V} (h : m.entries.Perm m'.entries) :
    m.sorted = m'.sorted := by
  have hsorted : ∀ m : JsonMap V, m.sorted.entries.Perm m.entries := fun m =>
    List.perm_insertionSort ..
  have hordered : ∀ m : JsonMap V, m.sorted.entries.Pairwise fun a b => a.1 ≤ b.1 := fun m =>
    List.pairwise_insertionSort ..
  refine AList.ext (List.Perm.eq_of_pairwise (fun a b ha hb hab hba => ?_) (hordered m)
    (hordered m') (((hsorted m).trans h).trans (hsorted m').symm))
  exact m'.nodupKeys.eq_of_fst_eq (h.subset ((hsorted m).subset ha)) ((hsorted m').subset hb)
    (le_antisymm hab hba)

/-- A codec whose hash shows the salt and the password. -/
def plainAuthCodec : AuthCodec PlainText where
  parseRows
    | .users rows => some rows
    | .session _ => none
  printRows rows := .users rows.sorted
  parseSession
    | .session s => some s
    | .users _ => none
  printSession s := .session { s with token := "" }
  hash salt password := salt ++ password
  verifyHash password encoded := decide (password.toList <:+ encoded.toList)
  parseRows_printRows _ := ⟨_, rfl, List.perm_insertionSort ..⟩
  printRows_perm _ _ h := congrArg PlainText.users (JsonMap.sorted_perm h)
  parseSession_printSession _ := rfl

def AuthState.empty : AuthState PlainText := ⟨∅, 0, [], fun _ => none, [], []⟩

theorem AuthState.empty_fresh : AuthState.empty.Fresh := ⟨rfl, rfl, rfl⟩

/-- A call that succeeds at time 0, drawing the given text. -/
def AuthEnv.calm (random : String) : AuthEnv := ⟨false, 0, random, none⟩

/-- A number of calls of a thread. -/
def authSteps (t : Bool) (random : String) (n : Nat) :
    List (Move (authMachine PlainText) (authClients plainAuthCodec) Bool) :=
  List.replicate n (.step t (.calm random))

abbrev anyAuthRun : Rules (authMachine PlainText) (authClients plainAuthCodec) Bool :=
  ⟨fun _ _ _ => True, fun _ _ _ _ => True⟩

def setupCall (username : String) : AuthCall := .setup (some username) (some "password")

/-- Two setups count no users, and both create one. -/
theorem two_setups_two_admins :
    ∃ c : Pool (authMachine PlainText) Bool,
      Pool.Reaches anyAuthRun (Pool.idle AuthState.empty) c ∧ c.state.created.length = 2 ∧
      ∃ before ∈ c.state.created, plainAuthCodec.rows before ≠ ∅ := by
  obtain ⟨c, hreach, hlen, hne⟩ := Pool.exists_reaches anyAuthRun (Pool.idle AuthState.empty)
    ([.start true (setupCall "ann"), .start false (setupCall "bob")] ++ authSteps true "s" 1 ++
      authSteps false "s" 5 ++ authSteps true "s" 4)
    (fun c => c.state.created.length = 2 ∧
      ∃ before ∈ c.state.created, (plainAuthCodec.rows before).entries ≠ [])
    (by decide +kernel)
  obtain ⟨before, hmem, hne⟩ := hne
  exact ⟨c, hreach, hlen, before, hmem, fun h => hne (by rw [h]; rfl)⟩

/-- A setup, and another that comes too late. -/
theorem setup_creates_one_admin_twice_tried :
    ∃ c : Pool (authMachine PlainText) Bool,
      Pool.Reaches (setupRules plainAuthCodec Bool) (Pool.idle AuthState.empty) c ∧
      c.state.created ≠ [] ∧ c.state.created.length ≤ 1 := by
  obtain ⟨c, hreach, hne⟩ := Pool.exists_reaches (setupRules plainAuthCodec Bool)
    (.idle .empty)
    ([.start true (setupCall "ann"), .start false (setupCall "bob")] ++ authSteps true "s" 5 ++
      authSteps false "s" 1)
    (fun c => c.state.created.length = 1) (by decide +kernel)
  refine ⟨c, hreach, ?_, (setup_creates_one_admin AuthState.empty_fresh hreach).1⟩
  intro h
  rw [h] at hne
  cases hne

end Flexiq.Auth
