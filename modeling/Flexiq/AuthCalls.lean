import Flexiq.DashboardAuth

/-!
# The calls of the dashboard's requests

Most requests make only *plain* calls: they edit the users document without losing a user, store
sessions under session keys and delete nothing else. This is said once here, request by request.
The two exceptions, the setup of the first user and the change of a password, are put together
from the same parts where their results are proved.
-/

namespace Flexiq.Auth

section Calls

variable {Text : Type} {codec : AuthCodec Text}

/-- What an edit of the users document, whatever it is for, may write: the users key, and a
document with at least one user. -/
def Written (codec : AuthCodec Text) (key : String) (value : Text) : Prop :=
  key = usersKey ∧ codec.rows (some value) ≠ ∅

/-- The calls of requests that neither create the first user nor change a password. -/
def Plain (codec : AuthCodec Text) : AuthOp Text → Prop
  | .getSetting why _ => why = .plain
  | .setSettingIf why key _ value => why = .plain ∧ Written codec key value
  | .setSetting grant key value => ∃ token session, key = sessionKey token ∧
      value = codec.printSession session ∧ ∀ g, grant = some g → g.username = session.username
  | .deleteSetting key => ∃ token, key = sessionKey token
  | .replyChanged _ => False
  | _ => True

/-- Every call of the request satisfies `P`. -/
def Makes {α : Type} (P : AuthOp Text → Prop) (p : AuthProg Text α) : Prop :=
  p.run.Calls (S := authSig Text) P

section Rules

variable {α β : Type} {P Q : AuthOp Text → Prop}

theorem Makes.pure (a : α) : Makes P (pure a : AuthProg Text α) := trivial

theorem Makes.throw (e : ApiError) : Makes P (throw e : AuthProg Text α) := trivial

variable {p : AuthProg Text α}

theorem Makes.bind {f : α → AuthProg Text β} (hp : Makes P p) (hf : ∀ a, Makes P (f a)) :
    Makes P (p >>= f) :=
  Prog.Calls.except_bind hp hf

theorem Makes.mono (hp : Makes P p) (hPQ : ∀ op, P op → Q op) : Makes Q p :=
  Prog.Calls.mono hp hPQ

end Rules

/-! ## Documents -/

/-- No key is lost. -/
def Keeps {V : Type} (m m' : JsonMap V) : Prop := ∀ k, k ∈ m → k ∈ m'

variable {V : Type}

theorem Keeps.refl (m : JsonMap V) : Keeps m m := fun _ h => h

variable {m m' : JsonMap V}

theorem Keeps.trans {m'' : JsonMap V} (h : Keeps m m') (h' : Keeps m' m'') :
    Keeps m m'' := fun k hk => h' k (h k hk)

theorem Keeps.insert (m : JsonMap V) (k : String) (v : V) : Keeps m (m.insert k v) :=
  fun _ h => (AList.mem_insert m).2 (Or.inr h)

theorem exists_mem_of_ne_empty (h : m ≠ ∅) : ∃ k, k ∈ m := by
  obtain ⟨l, hl⟩ := m
  cases l with
  | nil => exact absurd rfl h
  | cons e => exact ⟨e.1, List.mem_cons_self⟩

theorem Keeps.ne_empty (h : Keeps m m') (hm : m ≠ ∅) : m' ≠ ∅ := by
  obtain ⟨k, hk⟩ := exists_mem_of_ne_empty hm
  rintro rfl
  exact AList.notMem_empty k (h k hk)

/-- Printing users back into their rows loses none. -/
theorem keeps_printed {rows : JsonMap JsonRow} {entries : List (Sigma fun _ : String => User)} :
    Keeps rows (entries.foldl (fun rows e => rows.insert e.1 (printUser e.2)) rows) := by
  induction entries generalizing rows with
  | nil => exact .refl rows
  | cons e rest ih => exact (Keeps.insert rows e.1 _).trans ih

/-- An edit changes at most the entry of one user. -/
def Touches {R : Type} (name : String) (mutate : JsonMap User → R × JsonMap User) : Prop :=
  ∀ users, (mutate users).2 = users ∨ ∃ user, (mutate users).2 = users.insert name user

section Edits

variable {R : Type} {name : String} {mutate : JsonMap User → R × JsonMap User}

theorem Touches.keeps (h : Touches name mutate) (users : JsonMap User) :
    Keeps users (mutate users).2 := by
  obtain heq | ⟨user, heq⟩ := h users
  · rw [heq]
    exact .refl users
  · rw [heq]
    exact .insert users name user

theorem Touches.editRows_eq (h : Touches name mutate) (rows : JsonMap JsonRow) :
    (editRows mutate rows).2 = (mutate (parseUsers rows)).2.entries.foldl
      (fun rows e => rows.insert e.1 (printUser e.2)) rows := by
  have hnone : ((parseUsers rows).keys.filter
      fun name => name ∉ (mutate (parseUsers rows)).2) = [] := by
    refine List.filter_eq_nil_iff.2 fun name hname => ?_
    simpa using h.keeps _ name (AList.mem_keys.2 hname)
  simp only [editRows, hnone, List.foldl_nil]

theorem Touches.keeps_rows (h : Touches name mutate) (rows : JsonMap JsonRow) :
    Keeps rows (editRows mutate rows).2 := by
  rw [h.editRows_eq]
  exact keeps_printed

end Edits

theorem touches_addUser (user : User) : Touches user.username (addUser user) := by
  intro _
  unfold addUser
  split
  · exact .inl rfl
  · exact .inr ⟨_, rfl⟩

theorem touches_putUser (user : User) : Touches user.username (putUser user) := by
  intro _
  unfold putUser
  split
  · exact .inr ⟨_, rfl⟩
  · exact .inl rfl

theorem touches_setHash (username hash : String) : Touches username (setHash username hash) := by
  intro _
  unfold setHash
  split
  · exact .inl rfl
  · exact .inr ⟨_, rfl⟩

theorem touches_stampLogin (username : String) (now : Int) :
    Touches username (stampLogin username now) := by
  intro _
  unfold stampLogin
  split
  · exact .inl rfl
  · exact .inr ⟨_, rfl⟩

theorem touches_mergeProvider (identity : Identity) (now : Int) :
    Touches (identity.slot ++ ":" ++ identity.subject) (mergeProvider identity now) := by
  intro _
  unfold mergeProvider
  dsimp only
  split
  · exact .inr ⟨_, rfl⟩
  · exact .inr ⟨_, rfl⟩

/-! ### The rows of the other users

An edit prints every user it could read back into its row, whoever was edited. A row that this
build cannot read stays, but one that it reads in part, with a field or a role it does not know,
is printed without that part. -/

/-- An edit of the users document, which touches one user at most. -/
structure UserEdit where
  {R : Type}
  username : String
  mutate : JsonMap User → R × JsonMap User
  touches : Touches username mutate

namespace UserEdit

def createUser (user : User) : UserEdit := ⟨_, _, touches_addUser user⟩

def updatePassword (username hash : String) : UserEdit := ⟨_, _, touches_setHash username hash⟩

def replaceUser (user : User) : UserEdit := ⟨_, _, touches_putUser user⟩

def upsertProviderUser (identity : Identity) (now : Int) : UserEdit :=
  ⟨_, _, touches_mergeProvider identity now⟩

def loginStamp (username : String) (now : Int) : UserEdit :=
  ⟨_, _, touches_stampLogin username now⟩

end UserEdit

theorem lookup_inserted {A B : Type} {f : String → A → Option B} {v : String} (m : JsonMap B)
    {l : List (Sigma fun _ : String => A)} (hl : l.NodupKeys) :
    (l.foldl (fun m e => match f e.1 e.2 with
      | some b => m.insert e.1 b
      | none => m) m).lookup v = ((l.dlookup v).bind (f v)).or (m.lookup v) := by
  induction l generalizing m with
  | nil => rfl
  | cons e l ih =>
    obtain ⟨hnotin, hl⟩ := List.nodupKeys_cons.1 hl
    rw [List.foldl_cons, ih _ hl]
    by_cases hv : v = e.1
    · subst hv
      rw [List.dlookup_eq_none.2 hnotin, List.dlookup_cons_eq]
      cases h : f e.1 e.2 <;> simp [h]
    · rw [List.dlookup_cons_ne _ _ hv]
      cases h : f e.1 e.2 <;> simp [AList.lookup_insert_ne hv]

theorem lookup_parseUsers (rows : JsonMap JsonRow) (v : String) :
    (parseUsers rows).lookup v =
      (rows.lookup v).bind fun row => (parseUser row).map ({ · with username := v }) := by
  have h := lookup_inserted (f := fun k row => (parseUser row).map ({ · with username := k }))
    (v := v) ∅ rows.nodupKeys
  rw [AList.lookup_empty, Option.or_none] at h
  refine .trans ?_ h
  unfold parseUsers
  congr
  funext users e
  cases parseUser e.2 <;> rfl

/-! #### Rows that print as they were read -/

/-- The fields that a user can be read from: a hash that is a text, and each other field, if it is
there, of its type or, but for the time of creation, `null`. Any role will do. -/
@[mk_iff]
structure ReadableFields (hash created login email name : Option JsonValue) : Prop where
  hash : ∃ s, hash = some (.str s)
  created : created = none ∨ ∃ n, created = some (.int n)
  login : login = none ∨ login = some .null ∨ ∃ n, login = some (.int n)
  email : email = none ∨ email = some .null ∨ ∃ s, email = some (.str s)
  name : name = none ∨ name = some .null ∨ ∃ s, name = some (.str s)

/-- A row that a user can be read from: an object with such fields and any others, or an array. -/
def Readable : JsonRow → Prop
  | .object fields => ReadableFields (fields.lookup "password_hash") (fields.lookup "created_at")
      (fields.lookup "last_login_at") (fields.lookup "email") (fields.lookup "display_name")
  | .array es => es.length ≤ 6 ∧ ReadableFields es[0]? es[2]? es[3]? es[4]? es[5]?
  | .value _ => False

/-- A row with the six fields of a user and no others, each of them written out, and with one of the
two roles. -/
def Canonical (row : JsonRow) : Prop :=
  ∃ (hash role : String) (created : Int) (login : Option Int) (email name : Option String),
    (role = "admin" ∨ role = "viewer") ∧
    row = .object [("created_at", .int created), ("display_name", name.elim .null .str),
      ("email", email.elim .null .str), ("last_login_at", login.elim .null .int),
      ("password_hash", .str hash), ("role", .str role)]

theorem asStr_eq_some {v : JsonValue} {s : String} : v.asStr = some s ↔ v = .str s := by
  cases v <;> simp [JsonValue.asStr]

theorem asInt_eq_some {v : JsonValue} {n : Int} : v.asInt = some n ↔ v = .int n := by
  cases v <;> simp [JsonValue.asInt]

theorem optional_isSome {α : Type} (read : JsonValue → Option α) (v : Option JsonValue) :
    (JsonValue.optional read v).isSome ↔
      v = none ∨ v = some .null ∨ ∃ a w, v = some w ∧ read w = some a := by
  rcases v with _ | _ | _ | _ | _ | _ <;>
    simp [JsonValue.optional, Option.isSome_iff_exists]

theorem readUser_isSome {hash role created login email name : Option JsonValue} :
    (readUser hash role created login email name).isSome ↔
      ReadableFields hash created login email name := by
  have hhash : (hash.bind JsonValue.asStr).isSome ↔ ∃ s, hash = some (.str s) := by
    simp [Option.isSome_iff_exists, Option.bind_eq_some_iff, asStr_eq_some]
  have hcreated : ((created.map JsonValue.asInt).getD (some 0)).isSome ↔
      created = none ∨ ∃ n, created = some (.int n) := by
    cases created <;> simp [Option.isSome_iff_exists, asInt_eq_some]
  have hint := optional_isSome JsonValue.asInt
  have hstr := optional_isSome JsonValue.asStr
  simp only [asInt_eq_some, exists_eq_right] at hint
  simp only [asStr_eq_some, exists_eq_right] at hstr
  rw [readableFields_iff, ← hhash, ← hcreated, ← hint login, ← hstr email, ← hstr name]
  unfold readUser
  generalize hash.bind JsonValue.asStr = passwordHash
  generalize (created.map JsonValue.asInt).getD (some 0) = createdAt
  generalize JsonValue.optional JsonValue.asInt login = lastLoginAt
  generalize JsonValue.optional JsonValue.asStr email = email
  generalize JsonValue.optional JsonValue.asStr name = displayName
  cases passwordHash <;> cases createdAt <;> cases lastLoginAt <;> cases email <;>
    cases displayName <;> simp

theorem parseUser_isSome (row : JsonRow) : (parseUser row).isSome ↔ Readable row := by
  cases row with
  | object => exact readUser_isSome
  | array es =>
    simp only [parseUser, Readable]
    split
    · next hlen => simp [hlen, readUser_isSome]
    · next hlen => simp [hlen]
  | value => simp [parseUser, Readable]

/-- What is printed reads back, without the name. -/
theorem parseUser_printUser (user : User) :
    parseUser (printUser user) = some { user with username := "" } := by
  obtain ⟨_, _, role, _, login, email, name⟩ := user
  cases role <;> cases login <;> cases email <;> cases name <;> rfl

/-- **A row prints as it was read** exactly if it holds nothing that reading skips. -/
theorem printUser_eq_iff {row : JsonRow} {user : User} (hread : parseUser row = some user)
    (v : String) : printUser { user with username := v } = row ↔ Canonical row := by
  constructor
  · rintro rfl
    exact ⟨_, _, _, _, _, _, by cases user.role <;> simp [Role.asText], rfl⟩
  · rintro ⟨hash, role, created, login, email, name, hrole, rfl⟩
    obtain ⟨r, rfl⟩ : ∃ r : Role, role = r.asText := by
      obtain rfl | rfl := hrole
      · exact ⟨.admin, rfl⟩
      · exact ⟨.viewer, rfl⟩
    have hback := parseUser_printUser ⟨"", hash, r, created, login, email, name⟩
    obtain rfl : _ = user := Option.some.inj (hback.symm.trans hread)
    rfl

theorem rows_printRows_perm (rows : JsonMap JsonRow) :
    (codec.rows (some (codec.printRows rows))).entries.Perm rows.entries := by
  obtain ⟨rows', hparse, hperm⟩ := codec.parseRows_printRows rows
  simpa [AuthCodec.rows, hparse] using hperm

/-- What an edit stores, if it changed the document, has a user in it. -/
theorem written_of_edit {rows rows' : JsonMap JsonRow} (hkeeps : Keeps rows rows')
    (hne : codec.printRows rows' ≠ codec.printRows rows) :
    Written codec usersKey (codec.printRows rows') := by
  refine ⟨rfl, fun hempty => ?_⟩
  have hperm : (codec.rows (some (codec.printRows rows'))).entries.Perm rows'.entries :=
    rows_printRows_perm rows'
  rw [hempty] at hperm
  obtain rfl : rows' = ∅ := AList.ext hperm.symm.eq_nil
  refine hkeeps.ne_empty ?_ rfl
  rintro rfl
  exact hne rfl

/-! ## Requests -/

variable [DecidableEq Text]

theorem makes_update {R : Type} {P : AuthOp Text → Prop} {why : Purpose Text}
    (hget : P (.getSetting why usersKey))
    (hset : ∀ stored value, Written codec usersKey value →
      P (.setSettingIf why usersKey stored value))
    {mutate : JsonMap JsonRow → R × JsonMap JsonRow} (h : ∀ rows, Keeps rows (mutate rows).2)
    (attempts : Nat) : Makes P (update codec why usersKey mutate attempts) := by
  induction attempts with
  | zero => exact .throw _
  | succ attempts ih =>
    refine .bind ⟨hget, fun _ => trivial⟩ fun r => ?_
    obtain ⟨_, time⟩ := r
    dsimp only
    split
    · exact .pure _
    · next hne =>
      refine .bind ⟨hset _ _ (written_of_edit (h _) hne), fun _ => trivial⟩ fun r => ?_
      obtain ⟨_, _⟩ := r
      dsimp only
      split
      · exact .pure _
      · exact ih

/-- An edit of the users that is not for a purpose of its own. -/
theorem makes_editUsers {R : Type} {name : String} {mutate : JsonMap User → R × JsonMap User}
    (h : Touches name mutate) : Makes (Plain codec) (editUsers codec .plain mutate) :=
  makes_update (P := Plain codec) rfl (fun _ _ hw => ⟨rfl, hw⟩) h.keeps_rows _

omit [DecidableEq Text] in
theorem makes_countUsers : Makes (Plain codec) (countUsers codec) :=
  .bind ⟨rfl, fun _ => trivial⟩ fun _ => .pure _

omit [DecidableEq Text] in
theorem makes_getUser {username : String} : Makes (Plain codec) (getUser codec username) :=
  .bind ⟨rfl, fun _ => trivial⟩ fun _ => .pure _

theorem makes_createUser {username password : String} {role : Role} :
    Makes (Plain codec) (createUser codec .plain username password role) := by
  refine .bind ⟨trivial, fun _ => trivial⟩ fun now => .bind ⟨trivial, fun _ => trivial⟩ fun salt =>
    .bind ?_ fun _ => .pure _
  exact makes_editUsers (touches_addUser _)

theorem makes_replaceUser (user : User) : Makes (Plain codec) (replaceUser codec user) :=
  .bind (makes_editUsers (touches_putUser user)) fun _ => .pure _

theorem makes_authenticate (username submitted : String) :
    Makes (Plain codec) (authenticate codec username submitted) := by
  refine .bind makes_getUser fun r => ?_
  obtain ⟨found, _⟩ := r
  cases found with
  | none => exact .pure _
  | some =>
    dsimp only
    split
    · exact .pure _
    · refine .bind ⟨trivial, fun _ => trivial⟩ fun now => .bind ?_ fun _ => .pure _
      exact makes_editUsers (touches_stampLogin username now)

theorem makes_upsertProviderUser (identity : Identity) :
    Makes (Plain codec) (upsertProviderUser codec identity) :=
  .bind ⟨trivial, fun _ => trivial⟩ fun now =>
    .bind (makes_editUsers (touches_mergeProvider identity now)) fun _ => .pure _

section NoDecidable

omit [DecidableEq Text]

theorem makes_nowSeconds : Makes (Plain codec) (nowSeconds : AuthProg Text Int) :=
  .bind ⟨trivial, fun _ => trivial⟩ fun _ => .pure _

theorem makes_createSession {user : User} {grant : Option Grant}
    (h : ∀ g, grant = some g → g.username = user.username) :
    Makes (Plain codec) (createSession codec user grant) := by
  refine .bind makes_nowSeconds fun now => .bind ⟨trivial, fun _ => trivial⟩ fun token =>
    .bind ⟨trivial, fun _ => trivial⟩ fun csrfToken => .bind ?_ fun _ => .pure _
  exact ⟨⟨token, _, rfl, rfl, h⟩, fun _ => trivial⟩

theorem makes_deleteSession {token : String} :
    Makes (Plain codec) (deleteSession token : AuthProg Text Bool) := by
  unfold deleteSession
  split
  · exact .pure _
  · exact ⟨⟨token, rfl⟩, fun _ => trivial⟩

theorem makes_unlessExpired {token : String} {found : Option Session} :
    Makes (Plain codec) (unlessExpired token found : AuthProg Text (Option Session)) := by
  cases found with
  | none => exact .pure _
  | some =>
    refine .bind makes_nowSeconds fun now => ?_
    split
    · exact .bind makes_deleteSession fun _ => .pure _
    · exact .pure _

theorem makes_getSession (token : String) : Makes (Plain codec) (getSession codec token) := by
  unfold getSession
  split
  · exact .pure _
  · exact .bind ⟨rfl, fun _ => trivial⟩ fun _ => makes_unlessExpired

theorem makes_scanPrefix (start : String) :
    Makes (Plain codec) (scanPrefix start : AuthProg Text (List (String × Text))) :=
  .bind ⟨trivial, fun _ => trivial⟩ fun _ => .pure _

theorem makes_pruneEach {now : Int} {found : List (String × Text)} :
    Makes (Plain codec) (pruneEach codec now found) := by
  induction found with
  | nil => exact .pure _
  | cons e rest ih =>
    obtain ⟨_, _⟩ := e
    unfold pruneEach
    split
    · exact .bind makes_deleteSession fun _ => .bind ih fun _ => .pure _
    · exact ih

theorem makes_revokeEach (username keep : String) (found : List (String × Text)) :
    Makes (Plain codec) (revokeEach codec username keep found) := by
  induction found with
  | nil => exact .pure _
  | cons e rest ih =>
    obtain ⟨_, _⟩ := e
    unfold revokeEach
    split
    · exact ih
    · split
      · exact .bind makes_deleteSession fun _ => .bind ih fun _ => .pure _
      · exact ih

theorem makes_requiredField (field : String) (value : Option String) :
    Makes (Plain codec) (requiredField field value : AuthProg Text String) := by
  unfold requiredField
  split
  · exact .pure _
  · exact .throw _

theorem makes_orBadRequest {α : Type} (r : Except String α) :
    Makes (Plain codec) (orBadRequest r : AuthProg Text α) := by
  cases r with
  | ok a => exact .pure a
  | error => exact .throw _

theorem makes_resolveContext {cred : Credentials} :
    Makes (Plain codec) (resolveContext codec cred) := by
  unfold resolveContext
  split
  · exact .pure _
  · exact makes_getSession _

theorem makes_gateRequest (cred : Credentials) (stateChanging : Bool) :
    Makes (Plain codec) (gateRequest codec cred stateChanging) := by
  refine .bind makes_resolveContext fun session => .bind makes_countUsers fun r => ?_
  obtain ⟨_, _⟩ := r
  dsimp only
  split
  · exact .throw _
  · cases session with
    | none => exact .throw _
    | some =>
      dsimp only
      split
      · exact .throw _
      · exact .pure _

theorem makes_logout (cred : Credentials) : Makes (Plain codec) (logout codec cred) :=
  .bind (makes_gateRequest cred true) fun _ => .bind makes_deleteSession fun _ => .pure _

theorem makes_whoami (cred : Credentials) : Makes (Plain codec) (whoami codec cred) := by
  refine .bind (makes_gateRequest cred false) fun session => .bind makes_getUser fun r => ?_
  obtain ⟨found, _⟩ := r
  cases found with
  | some => exact .pure _
  | none => exact .bind makes_deleteSession fun _ => .throw _

theorem makes_pruneExpiredSessions : Makes (Plain codec) (pruneExpiredSessions codec) :=
  .bind makes_nowSeconds fun _ => .bind (makes_scanPrefix _) fun _ => makes_pruneEach

end NoDecidable

theorem makes_oauthCallback (identity : Identity) :
    Makes (Plain codec) (oauthCallback codec identity) :=
  .bind (makes_upsertProviderUser identity) fun user => makes_createSession fun _ h => by cases h

theorem makes_login (client : String) (username password : Option String) :
    Makes (Plain codec) (login codec client username password) := by
  refine .bind (makes_requiredField _ _) fun username => .bind (makes_requiredField _ _)
    fun password => .bind ⟨trivial, fun _ => trivial⟩ fun wait => ?_
  cases wait with
  | some => exact .throw _
  | none =>
    refine .bind makes_countUsers fun r => ?_
    obtain ⟨_, _⟩ := r
    dsimp only
    split
    · exact .throw _
    · refine .bind (makes_authenticate username password) fun r => ?_
      rcases r with _ | ⟨_, _⟩
      · exact .throw _
      · exact makes_createSession fun g hg => by cases hg; rfl

theorem makes_adminFromEnv (username password : String) :
    Makes (Plain codec) (adminFromEnv codec username password) := by
  refine .bind (makes_orBadRequest _) fun _ => .bind (makes_orBadRequest _) fun _ =>
    .bind makes_getUser fun r => ?_
  obtain ⟨_, _⟩ := r
  dsimp only
  split
  · exact .pure _
  · exact .bind makes_createUser fun created => .bind (makes_orBadRequest created) fun _ => .pure _

/-- Every request keeps to a discipline that plain requests, a setup and a change keep to. -/
theorem follows_request {γ : Type} {D : Discipline (authSig Text) γ} {g : γ}
    (hplain : ∀ {α : Type} {p : AuthProg Text α}, Makes (Plain codec) p →
      Prog.Tries D p g fun _ _ => True)
    (hsetup : ∀ u p, Prog.Tries D (setup codec u p) g fun _ _ => True)
    (hchange : ∀ cred old new, Prog.Tries D (changePassword codec cred old new) g fun _ _ => True)
    (call : AuthCall) : (call.prog codec).Follows D g fun _ _ => True := by
  have hdone : ∀ {α : Type} {p : AuthProg Text α}, Prog.Tries D p g (fun _ _ => True) →
      (discarded p).Follows D g fun _ _ => True :=
    fun h => Prog.Follows.bind (Prog.Follows.mono h fun _ _ _ => trivial)
  cases call with
  | status => exact hdone (hplain makes_countUsers)
  | setup username password => exact hdone (hsetup username password)
  | login => exact hdone (hplain (makes_login ..))
  | logout cred => exact hdone (hplain (makes_logout cred))
  | whoami cred => exact hdone (hplain (makes_whoami cred))
  | changePassword cred old new => exact hdone (hchange cred old new)
  | oauthCallback identity => exact hdone (hplain (makes_oauthCallback identity))
  | readSession token => exact hdone (hplain (makes_getSession token))
  | replaceUser user => exact hdone (hplain (makes_replaceUser user))
  | adminFromEnv => exact hdone (hplain (makes_adminFromEnv ..))
  | pruneExpiredSessions => exact hdone (hplain makes_pruneExpiredSessions)

end Calls

end Flexiq.Auth
