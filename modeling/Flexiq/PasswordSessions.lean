import Flexiq.AdminSetup
import Flexiq.Sequential

/-!
# Sessions and a changed password

A password change stores the new hash, lists the sessions, and deletes those of the user except
the caller's own. A login reads the hash, verifies the password against it, and then stores a new
session. Nothing ties the two together: a login that read the old hash may store its session after
the change has listed the sessions, and that session outlives the old password
(`old_session_survives`). When no login stores a session after the password it verified was
replaced, a change that was reported as done leaves no session on an old password but the caller's
own (`password_change_ends_sessions`).
-/

namespace Flexiq.Auth

section

variable {Text : Type} {codec : AuthCodec Text}

/-- The session that `get_session` accepts for a token at a time, in seconds. -/
def AuthState.acceptedSession (codec : AuthCodec Text) (st : AuthState Text) (now : Int)
    (token : String) : Option Session :=
  if token = "" then none
  else (codec.readSession token (st.settings.lookup (sessionKey token))).filter
    fun session => !session.isExpired now

/-- The stored session of a token was granted on a password that was read before the time. -/
def AuthState.GrantedBefore (st : AuthState Text) (token : String) (time : Nat) : Prop :=
  ∃ g, st.granted (sessionKey token) = some g ∧ g.time < time

/-- What the stored sessions of a user that were granted before a time are confined to. -/
def Confined (codec : AuthCodec Text) (st : AuthState Text) (username : String) (time : Nat)
    (P : String → Text → Prop) : Prop :=
  ∀ token raw session, token ≠ "" → st.settings.lookup (sessionKey token) = some raw →
    codec.parseSession raw = some session → session.username = username →
    st.GrantedBefore token time → P token raw

theorem Confined.mono {st : AuthState Text} {username : String} {time : Nat}
    {P Q : String → Text → Prop} (h : Confined codec st username time P)
    (hPQ : ∀ token raw session, token ≠ "" → codec.parseSession raw = some session →
      session.username = username → P token raw → Q token raw) :
    Confined codec st username time Q :=
  fun token raw session ht hraw hs hu hg =>
    hPQ token raw session ht hs hu (h token raw session ht hraw hs hu hg)

/-! ## Discipline -/

/-- How far a password change has come. -/
inductive Progress (Text : Type) where
  | none
  /-- The new hash was stored. -/
  | stored (username : String) (time : Nat)
  /-- The sessions were listed; these are left. -/
  | listed (username : String) (time : Nat) (left : List (String × Text))

def sessionsIn (settings : List (String × Text)) : List (String × Text) :=
  settings.filterMap fun e => (stripPrefix sessionPrefix e.1).map fun suffix => (suffix, e.2)

/-- The reply to a password change goes out when, of the sessions listed, only the caller's own or
ones of other users are left. -/
def MayReply (codec : AuthCodec Text) (change : PasswordChange) : Progress Text → Prop
  | .listed username time left => change.username = username ∧ change.time = time ∧
      ∀ e ∈ left, e.1 = change.keep ∨ e.1 = "" ∨ belongs codec username e.2 = false
  | _ => False

/-- What a call may do to sessions: they are stored as they print, under their user's grant. -/
def Orderly (codec : AuthCodec Text) (g : Progress Text) : AuthOp Text → Prop
  | .setSettingIf _ key _ _ => key = usersKey
  | .setSetting grant key value => ∃ token session, key = sessionKey token ∧
      value = codec.printSession session ∧ ∀ g, grant = some g → g.username = session.username
  | .replyChanged change => MayReply codec change g
  | _ => True

/-- How the calls of a password change bring it forward. -/
def Progress.next (g : Progress Text) : (op : AuthOp Text) → op.Res → Progress Text
  | .setSettingIf (.password username) _ _ _, some (true, time) => .stored username time
  | .listSettings, some settings =>
    match g with
    | .stored username time => .listed username time (sessionsIn settings)
    | g => g
  | .deleteSetting key, some _ =>
    match g with
    | .listed username time left =>
      .listed username time (left.filter fun e => sessionKey e.1 ≠ key)
    | g => g
  | _, _ => g

def sessionDiscipline (codec : AuthCodec Text) :
    Discipline (authSig Text) (Progress Text) where
  permits := Orderly codec
  expects _ _ _ := True
  next := Progress.next
  done _ := True

theorem Plain.orderly {op : AuthOp Text} (h : Plain codec op) (g : Progress Text) :
    Orderly codec g op := by
  cases op with
  | setSettingIf => exact h.2.1
  | setSetting => exact h
  | replyChanged => exact h.elim
  | _ => trivial

/-! ## The store -/

variable [DecidableEq Text]
variable {st : AuthState Text} {username : String} {op : AuthOp Text} {g : Progress Text}

/-- When a login stores its session, the user's password has not been replaced since the login
read it. -/
def PasswordStill (st : AuthState Text) : AuthOp Text → Prop
  | .setSetting (some g) _ _ => ∀ w ∈ st.written, w.1 = g.username → w.2 ≤ g.time
  | _ => True

/-- What is known of a password change by how far it has come. -/
def Progress.Holds (codec : AuthCodec Text) (st : AuthState Text) : Progress Text → Prop
  | .none => True
  | .stored username time => (username, time) ∈ st.written
  | .listed username time left => (username, time) ∈ st.written ∧
      Confined codec st username time fun token raw => (token, raw) ∈ left

/-- The changes that were reported as done left the caller's session only. -/
def ChangesDone (codec : AuthCodec Text) (st : AuthState Text) : Prop :=
  ∀ change ∈ st.changed, (change.username, change.time) ∈ st.written ∧
    Confined codec st change.username change.time fun token _ => token = change.keep

/-- Sessions stay confined: a new session is granted on a password read after every change. -/
theorem Confined.act {time : Nat} {P : String → Text → Prop} (h : Confined codec st username time P)
    (hw : (username, time) ∈ st.written) (hop : Orderly codec g op) (hrule : PasswordStill st op)
    (env : AuthEnv) : Confined codec (op.act env st).2 username time P := by
  cases op with
  | getSetting | listSettings =>
    simp only [AuthOp.act]
    split <;> exact h
  | setSettingIf why key expected value =>
    obtain rfl : key = usersKey := hop
    simp only [AuthOp.act]
    split
    · exact h
    · split
      · intro token raw session ht hraw hs hu hg
        have hraw : (st.settings.insert usersKey value).lookup (sessionKey token) = some raw := hraw
        rw [AList.lookup_insert_ne (usersKey_ne_sessionKey token)] at hraw
        refine h token raw session ht hraw hs hu ?_
        cases why <;> exact hg
      · exact h
  | setSetting grant =>
    obtain ⟨new, stored, rfl, rfl, hgrant⟩ := hop
    simp only [AuthOp.act]
    split
    · exact h
    · rintro token raw session ht hraw hs hu ⟨g', hg', hlt⟩
      have hraw : (st.settings.insert (sessionKey new) (codec.printSession stored)).lookup
        (sessionKey token) = some raw := hraw
      have hg' : Function.update st.granted (sessionKey new) grant (sessionKey token) =
          some g' := hg'
      by_cases heq : sessionKey token = sessionKey new
      · -- the new session itself
        rw [heq, AList.lookup_insert] at hraw
        rw [heq, Function.update_self] at hg'
        cases hraw
        rw [codec.parseSession_printSession] at hs
        cases hs
        subst hg'
        have hle : time ≤ g'.time := hrule (username, time) hw
          (hu.symm.trans (hgrant g' rfl).symm)
        omega
      · rw [AList.lookup_insert_ne heq] at hraw
        rw [Function.update_of_ne heq] at hg'
        exact h token raw session ht hraw hs hu ⟨g', hg', hlt⟩
  | deleteSetting key =>
    simp only [AuthOp.act]
    split
    · exact h
    · intro token raw session ht hraw hs hu hg
      have hraw : (st.settings.erase key).lookup (sessionKey token) = some raw := hraw
      by_cases heq : sessionKey token = key
      · rw [heq, AList.lookup_erase] at hraw
        cases hraw
      · rw [AList.lookup_erase_ne heq] at hraw
        exact h token raw session ht hraw hs hu hg
  | _ => exact h

theorem mem_written_act {w : String × Nat} (h : w ∈ st.written) (op : AuthOp Text)
    (env : AuthEnv) : w ∈ (op.act env st).2.written := by
  cases op with
  | setSettingIf why =>
    simp only [AuthOp.act]
    split
    · exact h
    · split
      · cases why with
        | password => exact List.mem_cons_of_mem _ h
        | _ => exact h
      · exact h
  | getSetting | listSettings | setSetting | deleteSetting =>
    simp only [AuthOp.act]
    split <;> exact h
  | _ => exact h

theorem Progress.Holds.act (h : g.Holds codec st) {g' : Progress Text} (hop : Orderly codec g' op)
    (hrule : PasswordStill st op) (env : AuthEnv) : g.Holds codec (op.act env st).2 := by
  cases g with
  | none => trivial
  | stored => exact mem_written_act h op env
  | listed => exact ⟨mem_written_act h.1 op env, h.2.act h.1 hop hrule env⟩

theorem stripPrefix_append {start rest : String} :
    stripPrefix start (start ++ rest) = some rest := by
  have happ : ∀ a b : List Char, a.isPrefixOf? (a ++ b) = some b := by
    intro a _
    induction a with
    | nil => rfl
    | cons c a ih => simp [List.isPrefixOf?, ih]
  rw [stripPrefix, String.toList_append, happ]
  simp

omit [DecidableEq Text] in
theorem mem_sessionsIn {settings : JsonMap Text} {token : String} {raw : Text}
    (h : settings.lookup (sessionKey token) = some raw) :
    (token, raw) ∈ sessionsIn (settings.entries.map fun e => (e.1, e.2)) := by
  have hmem : (⟨sessionKey token, raw⟩ : Sigma fun _ => Text) ∈ settings.entries :=
    AList.mem_lookup_iff.1 h
  refine List.mem_filterMap.2 ⟨(sessionKey token, raw), List.mem_map.2 ⟨_, hmem, rfl⟩, ?_⟩
  rw [sessionKey, stripPrefix_append]
  rfl

/-- A change knows more after its own call. -/
theorem Progress.Holds.next (h : g.Holds codec st) (hop : Orderly codec g op)
    (hrule : PasswordStill st op) (env : AuthEnv) :
    (g.next op (op.act env st).1).Holds codec (op.act env st).2 := by
  have hkeep := h.act hop hrule env
  cases op with
  | setSettingIf why key expected =>
    simp only [AuthOp.act] at hkeep ⊢
    by_cases hfault : env.fault = true
    · rw [if_pos hfault] at hkeep ⊢
      cases why <;> exact hkeep
    · rw [if_neg hfault] at hkeep ⊢
      by_cases hfound : st.settings.lookup key = expected
      · rw [if_pos hfound] at hkeep ⊢
        cases why with
        | password => exact List.mem_cons_self
        | _ => exact hkeep
      · rw [if_neg hfound] at hkeep ⊢
        cases why <;> exact hkeep
  | listSettings =>
    simp only [AuthOp.act] at hkeep ⊢
    by_cases hfault : env.fault = true
    · rw [if_pos hfault] at hkeep ⊢
      exact hkeep
    · rw [if_neg hfault] at hkeep ⊢
      cases g with
      | stored => exact ⟨h, fun token raw session _ hraw _ _ _ => mem_sessionsIn hraw⟩
      | _ => exact hkeep
  | deleteSetting key =>
    simp only [AuthOp.act] at hkeep ⊢
    by_cases hfault : env.fault = true
    · rw [if_pos hfault] at hkeep ⊢
      exact hkeep
    · rw [if_neg hfault] at hkeep ⊢
      cases g with
      | listed =>
        refine ⟨hkeep.1, fun token raw session ht hraw hs hu hg => ?_⟩
        refine List.mem_filter.2 ⟨hkeep.2 token raw session ht hraw hs hu hg, ?_⟩
        have hraw : (st.settings.erase key).lookup (sessionKey token) = some raw := hraw
        refine decide_eq_true fun heq => ?_
        rw [heq, AList.lookup_erase] at hraw
        cases hraw
      | _ => exact hkeep
  | _ =>
    exact hkeep

/-- Done changes stay done, and a reply adds one that is. -/
theorem ChangesDone.act (h : ChangesDone codec st) (hg : g.Holds codec st)
    (hop : Orderly codec g op) (hrule : PasswordStill st op) (env : AuthEnv) :
    ChangesDone codec (op.act env st).2 := by
  have hold : ∀ change ∈ st.changed, (change.username, change.time) ∈ (op.act env st).2.written ∧
      Confined codec (op.act env st).2 change.username change.time fun token _ =>
        token = change.keep :=
    fun change hc => ⟨mem_written_act (h change hc).1 op env,
      (h change hc).2.act (h change hc).1 hop hrule env⟩
  cases op with
  | replyChanged =>
    intro change hc
    obtain rfl | hc := List.mem_cons.1 hc
    · cases g with
      | listed =>
        obtain ⟨hu, ht, hleft⟩ := hop
        subst hu
        subst ht
        refine ⟨hg.1, hg.2.mono fun token raw session htok hs hu hmem => ?_⟩
        obtain hkeep | hempty | hother := hleft _ hmem
        · exact hkeep
        · exact absurd hempty htok
        · simp [belongs, hs, hu] at hother
      | none | stored => exact hop.elim
    · exact hold change hc
  | setSettingIf why =>
    refine fun change hc => hold change ?_
    simp only [AuthOp.act] at hc
    split at hc
    · exact hc
    · split at hc
      · cases why <;> exact hc
      · exact hc
  | getSetting | listSettings | setSetting | deleteSetting =>
    refine fun change hc => hold change ?_
    simp only [AuthOp.act] at hc
    split at hc <;> exact hc
  | _ => exact hold

/-! ## Requests -/

section

omit [DecidableEq Text]

open Prog in
/-- Calls that are permitted whatever the progress. -/
theorem Makes.tries_orderly {α : Type} {p : AuthProg Text α}
    (h : Makes (fun op => ∀ g, Orderly codec g op) p) (g : Progress Text) :
    Tries (sessionDiscipline codec) p g fun _ _ => True := by
  have hobeys : Obeys (sessionDiscipline codec) p.run := h.obeys fun op hop g => hop g
  exact (hobeys g).mono fun _ _ _ _ _ => trivial

theorem Makes.tries {α : Type} {p : AuthProg Text α} (h : Makes (Plain codec) p)
    (g : Progress Text) : Prog.Tries (sessionDiscipline codec) p g fun _ _ => True :=
  Makes.tries_orderly (h.mono fun _ hop g => hop.orderly g) g

end

open Prog in
/-- A password that was stored is known to be. -/
theorem tries_update {R : Type} {mutate : JsonMap JsonRow → R × JsonMap JsonRow} (attempts : Nat)
    (g : Progress Text) :
    Tries (sessionDiscipline codec) (update codec (.password username) usersKey mutate attempts) g
      fun g' r => ∀ time, r.2 = some time → g' = .stored username time := by
  induction attempts generalizing g with
  | zero => exact .throw _
  | succ attempts ih =>
    refine .bind (.perform rfl trivial fun r _ a _ => ?_)
    obtain ⟨_, time⟩ := a
    dsimp only
    split
    · exact .pure fun time h => by cases h
    · refine .bind (.perform rfl rfl fun r _ a ha => ?_)
      obtain ⟨won, time⟩ := a
      have hr : r = some (won, time) := by
        rcases r with _ | _
        · cases ha
        · cases ha
          rfl
      subst hr
      cases won with
      | true =>
        refine .pure fun time' h => ?_
        cases h
        rfl
      | false => exact ih _

/-- A listed session that the change need not delete. -/
def Spared (codec : AuthCodec Text) (username keep : String) (e : String × Text) : Prop :=
  e.1 = keep ∨ e.1 = "" ∨ belongs codec username e.2 = false

omit [DecidableEq Text] in
open Prog in
/-- The change deletes what it listed, except what it spares. -/
theorem tries_revokeEach {keep : String} {time : Nat} {found : List (String × Text)}
    {left : List (String × Text)} (h : ∀ e ∈ left, e ∈ found ∨ Spared codec username keep e) :
    Tries (sessionDiscipline codec) (revokeEach codec username keep found)
      (.listed username time left) fun g' _ => ∃ left, g' = .listed username time left ∧
        ∀ e ∈ left, Spared codec username keep e := by
  induction found generalizing left with
  | nil =>
    refine .pure ⟨left, rfl, fun e he => ?_⟩
    obtain hnil | hspared := h e he
    · cases hnil
    · exact hspared
  | cons first rest ih =>
    obtain ⟨token, raw⟩ := first
    -- what is left is among the rest once the first is spared or gone
    have hrest : ∀ {left' : List (String × Text)}, (∀ e ∈ left', e ∈ left) →
        (∀ e ∈ left', e = (token, raw) → Spared codec username keep e) →
        ∀ e ∈ left', e ∈ rest ∨ Spared codec username keep e := by
      intro _ hsub hfirst e he
      obtain hmem | hspared := h e (hsub e he)
      · obtain rfl | hmem := List.mem_cons.1 hmem
        · exact .inr (hfirst _ he rfl)
        · exact .inl hmem
      · exact .inr hspared
    unfold revokeEach
    split
    · next hkeep => exact ih (hrest (fun _ he => he) fun e _ he => .inl (by rw [he]; exact hkeep))
    · split
      · refine .bind ?_
        unfold deleteSession
        split
        · next hempty =>
          refine .pure (.bind ((ih (hrest (fun _ he => he) fun e _ he =>
            .inr (.inl (by rw [he]; exact hempty)))).mono fun g' _ hg' => .pure hg'))
        · refine .perform rfl trivial fun r _ a ha => ?_
          rcases r with _ | _
          · cases ha
          · refine .bind ((ih (hrest (fun e he => (List.mem_filter.1 he).1) ?_)).mono
              fun g' _ hg' => .pure hg')
            intro e he heq
            have hne := of_decide_eq_true (List.mem_filter.1 he).2
            exact absurd (by rw [heq]) hne
      · next hother =>
        refine ih (hrest (fun _ he => he) fun e _ he => .inr (.inr ?_))
        rw [he]
        exact Bool.eq_false_iff.2 hother

omit [DecidableEq Text] in
open Prog in
theorem tries_revokeSessionsFor {keep : String} {time : Nat} :
    Tries (sessionDiscipline codec) (revokeSessionsFor codec username keep)
      (.stored username time) fun g' _ => ∃ left, g' = .listed username time left ∧
        ∀ e ∈ left, Spared codec username keep e := by
  refine .bind (.bind (.perform rfl trivial fun r _ settings hr => .pure ?_))
  rcases r with _ | _
  · cases hr
  · cases hr
    refine tries_revokeEach fun e he => .inl ?_
    exact (List.mem_insertionSort _).2 he

open Prog in
theorem tries_changePassword {cred : Credentials} {oldPassword newPassword : Option String} :
    Tries (sessionDiscipline codec) (changePassword codec cred oldPassword newPassword) g
      fun _ _ => True := by
  refine .bind (((makes_gateRequest cred true).tries g).mono fun g session _ => ?_)
  refine .bind (((makes_requiredField _ _).tries g).mono fun g oldPassword _ => ?_)
  refine .bind (((makes_requiredField _ _).tries g).mono fun g newPassword _ => ?_)
  refine .bind (((makes_orBadRequest _).tries g).mono fun g _ _ => ?_)
  refine .bind (((makes_authenticate _ _).tries g).mono fun g r _ => ?_)
  rcases r with _ | ⟨user, _⟩
  · exact .throw _
  · refine .bind (.bind (.perform rfl trivial fun r _ salt _ =>
      (tries_update _ _).mono fun g r hg => ?_))
    obtain ⟨outcome, time⟩ := r
    rcases outcome with _ | ⟨⟩
    · exact .bind (.throw _)
    · refine .bind (.pure ?_)
      cases time with
      | none =>
        have hplain : Makes (Plain codec) (revokeSessionsFor codec user.username session.token) :=
          .bind (makes_scanPrefix _) fun found => makes_revokeEach _ _ found
        exact .bind ((hplain.tries g).mono fun _ _ _ => .pure trivial)
      | some time =>
        obtain rfl := hg time rfl
        refine .bind (tries_revokeSessionsFor.mono fun g revoked hg => ?_)
        obtain ⟨_, rfl, hspared⟩ := hg
        refine .bind (.perform rfl ⟨rfl, rfl, hspared⟩ fun _ _ _ _ => .pure trivial)

theorem orderly_setup {username password : Option String} :
    Makes (fun op => ∀ g, Orderly codec g op) (setup codec username password) := by
  have hplain : ∀ {α : Type} {p : AuthProg Text α}, Makes (Plain codec) p →
      Makes (fun op => ∀ g, Orderly codec g op) p :=
    fun h => h.mono fun _ hop g => hop.orderly g
  refine .bind (hplain (makes_requiredField _ _)) fun username =>
    .bind (hplain (makes_requiredField _ _)) fun password =>
    .bind (hplain (makes_orBadRequest _)) fun _ => .bind (hplain (makes_orBadRequest _)) fun _ =>
    .bind (hplain makes_countUsers) fun r => ?_
  obtain ⟨_, _⟩ := r
  dsimp only
  split
  · exact .throw _
  · refine .bind ?_ fun created => hplain (makes_orBadRequest created)
    refine .bind ⟨fun _ => trivial, fun _ => trivial⟩ fun now =>
      .bind ⟨fun _ => trivial, fun _ => trivial⟩ fun salt => .bind ?_ fun _ => .pure _
    exact makes_update (P := fun op => ∀ g, Orderly codec g op) (fun _ => trivial)
      (fun _ _ hw _ => hw.1) (touches_addUser _).keeps_rows _

/-! ## Results -/

variable {A : AuthState Text → AuthOp Text → AuthEnv → Prop}

theorem ensures_unlessExpired
    (st : AuthState Text) (token : String) (found : Option Session) :
    Prog.Ensures (M := authMachine Text) A (unlessExpired token found).run st
      fun _ a => ∀ r, a = .ok r → ∃ now,
        r = found.filter fun session => !session.isExpired now := by
  cases found with
  | none =>
    rintro r ⟨⟩
    exact ⟨0, rfl⟩
  | some session =>
    intro env _
    let now : Int := env.now.tdiv 1000
    change Prog.Ensures (M := authMachine Text) A (ExceptT.run (if session.isExpired now = true then
      (deleteSession token >>= fun _ => pure none) else pure (some session)))
      { st with clock := st.clock + 1 } _
    by_cases hexp : session.isExpired now = true
    · have hnone : none = (some session).filter fun session => !session.isExpired now := by
        simp [Option.filter, hexp]
      have hgone : Prog.Ensures (M := authMachine Text) A
          (deleteSession token >>= fun _ => pure none : AuthProg Text (Option Session)).run
          { st with clock := st.clock + 1 } fun _ a => ∀ r, a = .ok r → r = none := by
        unfold deleteSession
        split
        · rintro r ⟨⟩
          rfl
        · intro env' _
          by_cases hfault : env'.fault = true
          · simp only [AuthOp.exec, AuthOp.act, if_pos hfault]
            rintro r ⟨⟩
          · simp only [AuthOp.exec, AuthOp.act, if_neg hfault]
            rintro r ⟨⟩
            rfl
      rw [if_pos hexp]
      exact hgone.mono fun _ a ha r hr => ⟨now, (ha r hr).trans hnone⟩
    · rw [if_neg hexp]
      rintro _ ⟨⟩
      exact ⟨now, by simp [Option.filter, hexp]⟩

theorem getSession_returns {st' : AuthState Text} {token : String} {r : Option Session}
    (h : (getSession codec token).run.Returns (authMachine Text) A st (.ok r) st') :
    ∃ now, r = st.acceptedSession codec now token := by
  have hens : Prog.Ensures (M := authMachine Text) A (getSession codec token).run st
      fun _ a => ∀ r, a = .ok r → ∃ now, r = st.acceptedSession codec now token := by
    unfold getSession AuthState.acceptedSession
    split
    · rintro r ⟨⟩
      exact ⟨0, rfl⟩
    · refine .bind fun env _ => ?_
      by_cases hfault : env.fault = true
      · simp only [AuthOp.exec, AuthOp.act, if_pos hfault]
        rintro r ⟨⟩
      · simp only [AuthOp.exec, AuthOp.act, if_neg hfault]
        exact ensures_unlessExpired ..
  exact hens.returns h r rfl

instance (st : AuthState Text) : DecidablePred (PasswordStill st) := fun op => by
  rcases op with _ | _ | ⟨_ | _⟩ <;> unfold PasswordStill <;> infer_instance

/-- The runs in which no login stores a session on a password that was replaced. -/
abbrev sessionRules (codec : AuthCodec Text) (τ : Type) :
    Rules (authMachine Text) (authClients codec) τ where
  mayStart _ _ _ := True
  mayStep st _ op _ := PasswordStill st op

/-- What holds between the store and the changes in progress. -/
def SessionInv (codec : AuthCodec Text) {τ : Type} (st : AuthState Text)
    (G : τ → Progress Text) : Prop :=
  ChangesDone codec st ∧ ∀ t, (G t).Holds codec st

theorem session_sound {τ : Type} [DecidableEq τ] :
    Pool.Sound (sessionRules codec τ) (sessionDiscipline codec) (SessionInv codec) where
  start st G t call h _ _ := by
    refine ⟨.none, ⟨h.1, ?_⟩, follows_request (fun hp => hp.tries _)
      (fun _ _ => orderly_setup.tries_orderly _) (fun _ _ _ => tries_changePassword) call⟩
    exact (Function.forall_update_iff G fun _ g => g.Holds codec st).2 ⟨trivial, fun u _ => h.2 u⟩
  step st G t op env h hop hrule := by
    refine ⟨trivial, h.1.act (h.2 t) hop hrule env, ?_⟩
    exact (Function.forall_update_iff G fun _ g => g.Holds codec _).2
      ⟨(h.2 t).next hop hrule env, fun u _ => (h.2 u).act hop hrule env⟩

/-- **A changed password ends old sessions.** In every run in which no login stores a session on a
password that was replaced since it was read: once a change was reported as done, no session of
the user that was granted on a password read before the change is accepted, except the caller's
own. -/
theorem password_change_ends_sessions {τ : Type} [DecidableEq τ] {st : AuthState Text}
    (hst : st.Fresh) {c : Pool (authMachine Text) τ}
    (h : Pool.Reaches (sessionRules codec τ) (Pool.idle st) c) :
    ∀ change ∈ c.state.changed, ∀ token now session, token ≠ change.keep →
      c.state.acceptedSession codec now token = some session →
      session.username = change.username → ¬ c.state.GrantedBefore token change.time := by
  have hstart : Pool.Certified (sessionDiscipline codec) (SessionInv codec)
      (.idle st : Pool (authMachine Text) τ) fun _ => .none := by
    refine .idle ⟨fun change hc => ?_, fun _ => trivial⟩ fun _ => trivial
    rw [hst.changed] at hc
    cases hc
  obtain ⟨_, ⟨hdone, -⟩, -⟩ := session_sound.reachable hstart h
  intro change hchange token _ _ hne haccept huser hgranted
  have hconfined := (hdone change hchange).2
  unfold AuthState.acceptedSession at haccept
  split at haccept
  · cases haccept
  · next htoken =>
    obtain ⟨hread, -⟩ := Option.filter_eq_some_iff.1 haccept
    simp only [AuthCodec.readSession, Option.map_eq_some_iff, Option.bind_eq_some_iff] at hread
    obtain ⟨stored, ⟨raw, hraw, hparse⟩, rfl⟩ := hread
    exact hne (hconfined token raw stored htoken hraw hparse huser hgranted)

end

/-! ## Concrete requests -/

/-- A store with one user, whose session `k` was granted at the start. -/
def AuthState.oneUser : AuthState PlainText where
  settings := (AList.insert (sessionKey "k") (.session ⟨"", "ann", .admin, 0, 100, "c"⟩)
    (AList.singleton usersKey (.users (AList.singleton "ann"
      (printUser ⟨"ann", "spassword", .admin, 0, none, none, none⟩)))))
  clock := 1
  created := []
  granted := Function.update (fun _ => none) (sessionKey "k") (some ⟨"ann", 0⟩)
  written := []
  changed := []

theorem AuthState.oneUser_fresh : AuthState.oneUser.Fresh := ⟨rfl, rfl, rfl⟩

/-- The user logs in, and changes the password from session `k`. -/
def loginCall : AuthCall := .login "here" (some "ann") (some "password")
def changeCall : AuthCall :=
  .changePassword ⟨some "k", some ("c", "c")⟩ (some "password") (some "password2")

/-- A login reads the old password, the change runs to its end, and then the login stores its
session: it is accepted although it was granted on the old password. -/
theorem old_session_survives :
    ∃ c : Pool (authMachine PlainText) Bool,
      Pool.Reaches anyAuthRun (Pool.idle AuthState.oneUser) c ∧
      ∃ change ∈ c.state.changed, change.keep ≠ "t" ∧ c.state.GrantedBefore "t" change.time ∧
        (c.state.acceptedSession plainAuthCodec 0 "t").map Session.username =
          some change.username := by
  obtain ⟨c, hreach, change, hmem, hkeep, hgranted, haccept⟩ := Pool.exists_reaches anyAuthRun
    (.idle .oneUser)
    ([.start true loginCall, .start false changeCall] ++ authSteps true "t" 3 ++
      authSteps false "n" 12 ++ authSteps true "t" 6)
    (fun c => ∃ change ∈ c.state.changed, change.keep ≠ "t" ∧
      (c.state.granted (sessionKey "t")).any (fun g => g.time < change.time) = true ∧
      (c.state.acceptedSession plainAuthCodec 0 "t").map Session.username = some change.username)
    (by decide +kernel)
  obtain ⟨g, hg, hlt⟩ := (Option.any_eq_true _ _).1 hgranted
  exact ⟨c, hreach, change, hmem, hkeep, ⟨g, hg, of_decide_eq_true hlt⟩, haccept⟩

/-- A login that ends before the change: its session is gone. -/
theorem password_change_ends_login :
    ∃ c : Pool (authMachine PlainText) Bool,
      Pool.Reaches (sessionRules plainAuthCodec Bool) (Pool.idle AuthState.oneUser) c ∧
      ∃ change ∈ c.state.changed, c.state.GrantedBefore "t" change.time ∧
        ∀ token now session, token ≠ change.keep →
          c.state.acceptedSession plainAuthCodec now token = some session →
          session.username = change.username → ¬ c.state.GrantedBefore token change.time := by
  obtain ⟨c, hreach, change, hmem, hgranted⟩ := Pool.exists_reaches
    (sessionRules plainAuthCodec Bool) (.idle .oneUser)
    ([.start true loginCall, .start false changeCall] ++ authSteps true "t" 10 ++
      authSteps false "n" 12)
    (fun c => ∃ change ∈ c.state.changed,
      (c.state.granted (sessionKey "t")).any (fun g => g.time < change.time) = true)
    (by decide +kernel)
  obtain ⟨g, hg, hlt⟩ := (Option.any_eq_true _ _).1 hgranted
  exact ⟨c, hreach, change, hmem, ⟨g, hg, of_decide_eq_true hlt⟩,
    password_change_ends_sessions AuthState.oneUser_fresh hreach change hmem⟩

end Flexiq.Auth
