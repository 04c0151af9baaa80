import Flexiq.Prog

/-!
# The dashboard's users and sessions

The dashboard keeps its users and sessions in the settings store: all users in one JSON document
under `auth:users`, each session in a document of its own under `auth:session:<token>`. The users
document is edited by compare-and-set: read it, change it, write it only if it is still what was
read, and start over otherwise. Every storage call is one atomic step; a call may fail, and then
it changes nothing.

JSON texts and the password hash stay parameters (`AuthCodec`): the programs only ever parse, print,
compare and verify. The rows of the users document are JSON values, read and written the way the
derived code for a user does.

Three things are recorded beside the store, for no program to read back: the users documents in
which setup requests created their user, when each password was changed, and on a password read
when each session was granted. The purpose a call carries and the times in the answers are there
for these records only.
-/

namespace Flexiq.Auth

/-- A dashboard user's access level. -/
inductive Role where
  | admin
  | viewer
  deriving DecidableEq

structure User where
  username : String
  passwordHash : String
  role : Role
  createdAt : Int
  lastLoginAt : Option Int
  email : Option String
  displayName : Option String
  deriving DecidableEq

structure Session where
  token : String
  username : String
  role : Role
  createdAt : Int
  expiresAt : Int
  csrfToken : String
  deriving DecidableEq

/-- Whether the session has expired at `now`, in seconds. -/
def Session.isExpired (session : Session) (now : Int) : Bool := decide (session.expiresAt ≤ now)

def usersKey : String := "auth:users"
def sessionPrefix : String := "auth:session:"
def sessionTtlSeconds : Int := 24 * 60 * 60
def oauthPasswordMarker : String := "oauth:"
def usernameMaxLen : Nat := 64
def passwordMinLen : Nat := 8
def passwordMaxLen : Nat := 256

/-- How often an edit of a document is tried. -/
def maxAttempts : Nat := 25

def sessionKey (token : String) : String := sessionPrefix ++ token

/-! ## Rows -/

abbrev JsonMap (V : Type) := AList fun _ : String => V

inductive JsonValue where
  | null
  | bool (b : Bool)
  /-- An integer that fits into an `i64`. -/
  | int (n : Int)
  | str (s : String)
  /-- Any other number, an array or an object, by its text. -/
  | other (text : String)
  deriving DecidableEq

/-- A row of the users document. The fields of an object stand in the order of their keys. -/
inductive JsonRow where
  | object (fields : List (String × JsonValue))
  | array (elements : List JsonValue)
  | value (v : JsonValue)
  deriving DecidableEq

namespace JsonValue

def asStr : JsonValue → Option String
  | str s => some s
  | _ => none

def asInt : JsonValue → Option Int
  | int n => some n
  | _ => none

/-- A field of type `Option`: missing and `null` are `None`. -/
def optional {α : Type} (read : JsonValue → Option α) : Option JsonValue → Option (Option α)
  | none | some null => some none
  | some v => (read v).map some

end JsonValue

def Role.asText : Role → String
  | admin => "admin"
  | viewer => "viewer"

/-- `parse_or_viewer`: anything that is not recognised is a viewer. -/
def Role.parseOrViewer : Option String → Role
  | some "admin" => .admin
  | _ => .viewer

/-- Read a user from its fields, each of which may be missing. Only the hash has no default. -/
def readUser (hash role created login email name : Option JsonValue) : Option User := do
  let passwordHash ← hash.bind JsonValue.asStr
  let createdAt ← (created.map JsonValue.asInt).getD (some 0)
  let lastLoginAt ← JsonValue.optional JsonValue.asInt login
  let email ← JsonValue.optional JsonValue.asStr email
  let displayName ← JsonValue.optional JsonValue.asStr name
  return ⟨"", passwordHash, .parseOrViewer (role.bind JsonValue.asStr), createdAt,
    lastLoginAt, email, displayName⟩

/-- `User::deserialize`: from an object, whose other fields are skipped, or from an array with the
fields in their order. The name is not part of the row. -/
def parseUser : JsonRow → Option User
  | .object fields => readUser (fields.lookup "password_hash") (fields.lookup "role")
      (fields.lookup "created_at") (fields.lookup "last_login_at") (fields.lookup "email")
      (fields.lookup "display_name")
  | .array es => if es.length ≤ 6 then readUser es[0]? es[1]? es[2]? es[3]? es[4]? es[5]? else none
  | .value _ => none

/-- `User::serialize`. -/
def printUser (user : User) : JsonRow :=
  .object [("created_at", .int user.createdAt),
    ("display_name", user.displayName.elim .null .str),
    ("email", user.email.elim .null .str),
    ("last_login_at", user.lastLoginAt.elim .null .int),
    ("password_hash", .str user.passwordHash),
    ("role", .str user.role.asText)]

/-- The JSON codec and the password hash. An object is printed in the order of its keys, so the
order in which it was built does not show. Printing a session leaves its token out. -/
structure AuthCodec (Text : Type) where
  parseRows : Text → Option (JsonMap JsonRow)
  printRows : JsonMap JsonRow → Text
  parseSession : Text → Option Session
  printSession : Session → Text
  hash : (salt password : String) → String
  verifyHash : (password encoded : String) → Bool
  parseRows_printRows : ∀ rows, ∃ rows', parseRows (printRows rows) = some rows' ∧
    rows'.entries.Perm rows.entries
  printRows_perm : ∀ rows rows', rows.entries.Perm rows'.entries → printRows rows = printRows rows'
  parseSession_printSession : ∀ s, parseSession (printSession s) = some { s with token := "" }

/-! ## Storage calls -/

/-- Why a users document is read or written. -/
inductive Purpose (Text : Type) where
  | plain
  /-- A setup request creates its user; `counted` is the document in which it counted no users. -/
  | setup (counted : Option Text)
  /-- The password of a user is replaced. -/
  | password (username : String)
  deriving DecidableEq

/-- The password a session is granted on: whose it was, and when it was read. -/
structure Grant where
  username : String
  time : Nat
  deriving DecidableEq

/-- A password change that was reported as done: the caller's own session stays. -/
structure PasswordChange where
  username : String
  keep : String
  time : Nat
  deriving DecidableEq

/-- The calls of the dashboard. -/
inductive AuthOp (Text : Type) where
  | getSetting (why : Purpose Text) (key : String)
  | setSettingIf (why : Purpose Text) (key : String) (expected : Option Text) (value : Text)
  | setSetting (grant : Option Grant) (key : String) (value : Text)
  | deleteSetting (key : String)
  | listSettings
  | nowMillis
  | random
  | throttleCheck (key : String)
  /-- The answer to a password change goes out. -/
  | replyChanged (change : PasswordChange)

/-- What a call answers; a storage call that fails answers nothing. -/
def AuthOp.Res {Text : Type} : AuthOp Text → Type
  | getSetting _ _ => Option (Option Text × Nat)
  | setSettingIf _ _ _ _ => Option (Bool × Nat)
  | setSetting _ _ _ => Option Unit
  | deleteSetting _ => Option Bool
  | listSettings => Option (List (String × Text))
  | nowMillis => Int
  | random => String
  | throttleCheck _ => Option Nat
  | replyChanged _ => Unit

@[reducible] def authSig (Text : Type) : Signature := ⟨AuthOp Text, AuthOp.Res⟩

/-- What the world decides at a call. -/
structure AuthEnv where
  fault : Bool
  now : Int
  random : String
  wait : Option Nat
  deriving DecidableEq

/-- The settings, and the records. -/
structure AuthState (Text : Type) where
  settings : JsonMap Text
  /-- The number of calls made. -/
  clock : Nat
  /-- The users document before each user that a setup request created. -/
  created : List (Option Text)
  /-- The password each stored session was granted on, by settings key. -/
  granted : String → Option Grant
  /-- The password changes that were stored: whose password, and when. -/
  written : List (String × Nat)
  /-- The password changes that were reported as done. -/
  changed : List PasswordChange

/-- A state whose records are empty; the stored sessions may be granted on anything. -/
structure AuthState.Fresh {Text : Type} (st : AuthState Text) : Prop where
  created : st.created = []
  written : st.written = []
  changed : st.changed = []

section Exec

variable {Text : Type} [DecidableEq Text]

/-- What a write of the users document adds to the records. -/
def AuthState.record (why : Purpose Text) (before : Option Text) (st : AuthState Text) :
    AuthState Text :=
  match why with
  | .plain => st
  | .setup _ => { st with created := before :: st.created }
  | .password username => { st with written := (username, st.clock) :: st.written }

/-- One call, without the clock. -/
def AuthOp.act : (op : AuthOp Text) → AuthEnv → AuthState Text → op.Res × AuthState Text
  | .getSetting _ key, env, st =>
    if env.fault then (none, st) else (some (st.settings.lookup key, st.clock), st)
  | .setSettingIf why key expected value, env, st =>
    if env.fault then (none, st)
    else if st.settings.lookup key = expected then
      (some (true, st.clock),
        { st.record why expected with settings := st.settings.insert key value })
    else (some (false, st.clock), st)
  | .setSetting grant key value, env, st =>
    if env.fault then (none, st)
    else (some (), { st with
      settings := st.settings.insert key value
      granted := Function.update st.granted key grant })
  | .deleteSetting key, env, st =>
    if env.fault then (none, st)
    else (some (st.settings.lookup key).isSome, { st with settings := st.settings.erase key })
  | .listSettings, env, st =>
    if env.fault then (none, st)
    else (some (st.settings.entries.map fun e => (e.1, e.2)), st)
  | .nowMillis, env, st => (env.now, st)
  | .random, env, st => (env.random, st)
  | .throttleCheck _, env, st => (env.wait, st)
  | .replyChanged change, _, st => ((), { st with changed := change :: st.changed })

/-- One call. -/
def AuthOp.exec (op : AuthOp Text) (env : AuthEnv) (st : AuthState Text) :
    op.Res × AuthState Text :=
  ((op.act env st).1, { (op.act env st).2 with clock := st.clock + 1 })

/-- The dashboard's store. -/
@[reducible] def authMachine (Text : Type) [DecidableEq Text] : Machine (authSig Text) where
  State := AuthState Text
  Env := AuthEnv
  exec := AuthOp.exec

end Exec

/-- How a request is refused. -/
inductive ApiError where
  | badRequest (reason : String)
  | notFound (reason : String)
  | unauthenticated
  | setupRequired
  | forbidden (reason : String)
  | tooManyAttempts (seconds : Nat)
  /-- A storage call failed. -/
  | storage
  | settingConflict (key : String)
  deriving DecidableEq

/-- A request: calls, and an error that ends it. -/
abbrev AuthProg (Text : Type) := ExceptT ApiError (Prog (authSig Text))

section Programs

variable {Text : Type}

/-- A storage call that fails ends the request. -/
def answered {α : Type} : Option α → Except ApiError α
  | some a => .ok a
  | none => .error .storage

def getSetting (why : Purpose Text) (key : String) : AuthProg Text (Option Text × Nat) :=
  ExceptT.mk (.call (.getSetting why key) fun r => .ret (answered r))

def setSettingIf (why : Purpose Text) (key : String) (expected : Option Text) (value : Text) :
    AuthProg Text (Bool × Nat) :=
  ExceptT.mk (.call (.setSettingIf why key expected value) fun r => .ret (answered r))

def setSetting (grant : Option Grant) (key : String) (value : Text) : AuthProg Text Unit :=
  ExceptT.mk (.call (.setSetting grant key value) fun r => .ret (answered r))

def deleteSetting (key : String) : AuthProg Text Bool :=
  ExceptT.mk (.call (.deleteSetting key) fun r => .ret (answered r))

def listSettings : AuthProg Text (List (String × Text)) :=
  ExceptT.mk (.call .listSettings fun r => .ret (answered r))

def nowMillis : AuthProg Text Int := ExceptT.mk (.call .nowMillis fun r => .ret (.ok r))

/-- Sessions store seconds. -/
def nowSeconds : AuthProg Text Int := do
  let now ← nowMillis
  return now.tdiv 1000

def random : AuthProg Text String := ExceptT.mk (.call .random fun r => .ret (.ok r))

def throttleCheck (key : String) : AuthProg Text (Option Nat) :=
  ExceptT.mk (.call (.throttleCheck key) fun r => .ret (.ok r))

def replyChanged (change : PasswordChange) : AuthProg Text Unit :=
  ExceptT.mk (.call (.replyChanged change) fun _ => .ret (.ok ()))

/-! ## Documents -/

/-- Parse stored rows into users; a row that cannot be read is skipped. -/
def parseUsers (rows : JsonMap JsonRow) : JsonMap User :=
  rows.entries.foldl (fun users e =>
    match parseUser e.2 with
    | some user => users.insert e.1 { user with username := e.1 }
    | none => users) ∅

/-- Edit the users of a document: every user is printed back into its row, and a row goes only if
this build could read it and its user is gone. -/
def editRows {R : Type} (mutate : JsonMap User → R × JsonMap User) (rows : JsonMap JsonRow) :
    R × JsonMap JsonRow :=
  let before := parseUsers rows
  let (outcome, users) := mutate before
  let rows := users.entries.foldl (fun rows e => rows.insert e.1 (printUser e.2)) rows
  (outcome, (before.keys.filter fun name => name ∉ users).foldl (fun rows name => rows.erase name)
    rows)

variable (codec : AuthCodec Text)

namespace AuthCodec

/-- The users document as rows; one that is missing or unreadable is empty. -/
def rows (stored : Option Text) : JsonMap JsonRow := (stored.bind codec.parseRows).getD ∅

/-- Verify a password against an encoded hash; a provider's user has no password. -/
def verify (submitted encoded : String) : Bool :=
  if oauthPasswordMarker.toList.isPrefixOf encoded.toList then false
  else codec.verifyHash submitted encoded

def readSession (token : String) (stored : Option Text) : Option Session :=
  (stored.bind codec.parseSession).map fun session => { session with token }

end AuthCodec

def stripPrefix (start key : String) : Option String :=
  (start.toList.isPrefixOf? key.toList).map String.ofList

variable [DecidableEq Text]

/-- Read a document, change it, and store it only if nobody else wrote in between; on a lost race,
read again. The second result is when it was stored, if it had to be. -/
def update {R : Type} (why : Purpose Text) (key : String)
    (mutate : JsonMap JsonRow → R × JsonMap JsonRow) : Nat → AuthProg Text (R × Option Nat)
  | 0 => throw (.settingConflict key)
  | attempts + 1 => do
    let (stored, _) ← getSetting why key
    let document := codec.rows stored
    let before := codec.printRows document
    let (outcome, document) := mutate document
    let encoded := codec.printRows document
    if encoded = before then return (outcome, none)
    else
      let (won, time) ← setSettingIf why key stored encoded
      if won then return (outcome, some time) else update why key mutate attempts

/-- Every setting whose key starts with the prefix, by the rest of its key. -/
def scanPrefix (start : String) : AuthProg Text (List (String × Text)) := do
  let settings ← listSettings
  return (settings.filterMap fun e => (stripPrefix start e.1).map fun suffix => (suffix, e.2))
    |>.insertionSort fun left right => left.1 ≤ right.1

/-! ## Users -/

/-- How many users the store holds, readable or not; also the document and when it was read. -/
def countUsers : AuthProg Text (Nat × Option Text) := do
  let (stored, _) ← getSetting .plain usersKey
  return ((codec.rows stored).keys.length, stored)

/-- One user by name, and when it was read. -/
def getUser (username : String) : AuthProg Text (Option User × Nat) := do
  let (stored, time) ← getSetting .plain usersKey
  return ((parseUsers (codec.rows stored)).lookup username, time)

def editUsers {R : Type} (why : Purpose Text) (mutate : JsonMap User → R × JsonMap User) :
    AuthProg Text (R × Option Nat) :=
  update codec why usersKey (editRows mutate) maxAttempts

/-- The edit that adds a user under a new name. -/
def addUser (user : User) (users : JsonMap User) : Except String User × JsonMap User :=
  if user.username ∈ users then
    (.error ("user '" ++ user.username ++ "' already exists"), users)
  else (.ok user, users.insert user.username user)

def createUser (why : Purpose Text) (username password : String) (role : Role) :
    AuthProg Text (Except String User) := do
  let now ← nowMillis
  let salt ← random
  let user : User := ⟨username, codec.hash salt password, role, now, none, none, none⟩
  let (outcome, _) ← editUsers codec why (addUser user)
  return outcome

/-- The edit that replaces the row of a user who exists. -/
def putUser (user : User) (users : JsonMap User) : Bool × JsonMap User :=
  if user.username ∈ users then (true, users.insert user.username user) else (false, users)

/-- Persist a changed user row. -/
def replaceUser (user : User) : AuthProg Text Bool := do
  let (outcome, _) ← editUsers codec .plain (putUser user)
  return outcome

def setHash (username hash : String) (users : JsonMap User) : Except String Unit × JsonMap User :=
  match users.lookup username with
  | none => (.error ("user '" ++ username ++ "' does not exist"), users)
  | some user => (.ok (), users.insert username { user with passwordHash := hash })

/-- Replace a user's password; also when it was stored. -/
def updatePassword (username newPassword : String) :
    AuthProg Text (Except String Unit × Option Nat) := do
  let salt ← random
  editUsers codec (.password username) (setHash username (codec.hash salt newPassword))

/-- The edit that records a login. -/
def stampLogin (username : String) (now : Int) (users : JsonMap User) :
    Option User × JsonMap User :=
  match users.lookup username with
  | none => (none, users)
  | some user =>
    let user := { user with lastLoginAt := some now }
    (some user, users.insert username user)

/-- Verify credentials, stamping the login on success; also when the password was read. A row
deleted between the check and the stamp does not undo the login. -/
def authenticate (username submitted : String) : AuthProg Text (Option (User × Nat)) := do
  let (found, time) ← getUser codec username
  match found with
  | none => return none
  | some user =>
    if codec.verify submitted user.passwordHash = false then return none
    else
      let now ← nowMillis
      let (stamped, _) ← editUsers codec .plain (stampLogin username now)
      return some (stamped.getD user, time)

/-- A verified provider identity, and the role its user would be created with. -/
structure Identity where
  slot : String
  subject : String
  email : Option String
  name : Option String
  role : Role
  deriving DecidableEq

/-- The edit of a provider login: refresh the profile, or create the user. -/
def mergeProvider (identity : Identity) (now : Int) (users : JsonMap User) :
    User × JsonMap User :=
  let username := identity.slot ++ ":" ++ identity.subject
  match users.lookup username with
  | some existing =>
    let existing := { existing with
      email := identity.email.orElse fun _ => existing.email
      displayName := identity.name.orElse fun _ => existing.displayName
      lastLoginAt := some now }
    (existing, users.insert username existing)
  | none =>
    let created : User := ⟨username, oauthPasswordMarker ++ identity.slot, identity.role, now,
      some now, identity.email, identity.name⟩
    (created, users.insert username created)

/-- Look up or create the user behind a provider identity. -/
def upsertProviderUser (identity : Identity) : AuthProg Text User := do
  let now ← nowMillis
  let (user, _) ← editUsers codec .plain (mergeProvider identity now)
  return user

/-! ## Sessions -/

/-- Start a session for a user, granted on a password or on a provider's word. -/
def createSession (user : User) (grant : Option Grant) : AuthProg Text Session := do
  let now ← nowSeconds
  let token ← random
  let csrfToken ← random
  let session : Session :=
    ⟨token, user.username, user.role, now, now + sessionTtlSeconds, csrfToken⟩
  setSetting grant (sessionKey token) (codec.printSession session)
  return session

def deleteSession (token : String) : AuthProg Text Bool :=
  if token = "" then return false else deleteSetting (sessionKey token)

/-- A session that was found, unless it has expired; then it is deleted. -/
def unlessExpired (token : String) : Option Session → AuthProg Text (Option Session)
  | none => return none
  | some session => do
    let now ← nowSeconds
    if session.isExpired now then
      let _ ← deleteSession token
      return none
    else return some session

/-- Load a session by token, deleting it if it has expired. -/
def getSession (token : String) : AuthProg Text (Option Session) :=
  if token = "" then return none
  else do
    let (stored, _) ← getSetting .plain (sessionKey token)
    unlessExpired token (codec.readSession token stored)

/-- A stored session of this user. -/
def belongs (username : String) (raw : Text) : Bool :=
  (codec.parseSession raw).any fun session => session.username = username

/-- Invalidate the listed sessions that belong to the user, except one. -/
def revokeEach (username keep : String) : List (String × Text) → AuthProg Text Nat
  | [] => return 0
  | (token, raw) :: rest =>
    if token = keep then revokeEach username keep rest
    else if belongs codec username raw then do
      let removed ← deleteSession token
      let revoked ← revokeEach username keep rest
      return if removed then revoked + 1 else revoked
    else revokeEach username keep rest

/-- Invalidate every session of a user, except one. -/
def revokeSessionsFor (username keep : String) : AuthProg Text Nat := do
  let found ← scanPrefix sessionPrefix
  revokeEach codec username keep found

/-- A stored session that can never be used again. -/
def dead (now : Int) (raw : Text) : Bool :=
  (codec.parseSession raw).all fun session => session.isExpired now

/-- Remove the listed sessions that are dead. -/
def pruneEach (now : Int) : List (String × Text) → AuthProg Text Nat
  | [] => return 0
  | (token, raw) :: rest =>
    if dead codec now raw then do
      let removed ← deleteSession token
      let others ← pruneEach now rest
      return if removed then others + 1 else others
    else pruneEach now rest

def pruneExpiredSessions : AuthProg Text Nat := do
  let now ← nowSeconds
  let found ← scanPrefix sessionPrefix
  pruneEach codec now found

/-! ## Requests -/

def requiredField (field : String) (value : Option String) : AuthProg Text String :=
  match value.filter fun v => v ≠ "" with
  | some v => return v
  | none => throw (.badRequest ("missing or empty field '" ++ field ++ "'"))

def validateUsername (username : String) : Except String Unit :=
  if username = "" then .error "username must not be empty"
  else if usernameMaxLen < username.utf8ByteSize then
    .error ("username must be <= " ++ toString usernameMaxLen ++ " chars")
  else if username.toList.all fun c => c.isAlphanum || c == '.' || c == '_' || c == '-' then .ok ()
  else .error "username may only contain letters, digits, '.', '_', or '-'"

def validatePassword (password : String) : Except String Unit :=
  if password.utf8ByteSize < passwordMinLen then
    .error ("password must be >= " ++ toString passwordMinLen ++ " chars")
  else if passwordMaxLen < password.utf8ByteSize then
    .error ("password must be <= " ++ toString passwordMaxLen ++ " chars")
  else .ok ()

/-- An error of the request itself. -/
def orBadRequest {α : Type} : Except String α → AuthProg Text α
  | .ok a => return a
  | .error reason => throw (.badRequest reason)

/-- Create the first admin; only while no user exists. -/
def setup (username password : Option String) : AuthProg Text User := do
  let username ← requiredField "username" username
  let password ← requiredField "password" password
  orBadRequest (validateUsername username)
  orBadRequest (validatePassword password)
  let (users, counted) ← countUsers codec
  if 0 < users then throw (.badRequest "setup already complete")
  else
    let created ← createUser codec (.setup counted) username password .admin
    orBadRequest created

/-- Verify credentials and start a session. -/
def login (client : String) (username password : Option String) : AuthProg Text Session := do
  let username ← requiredField "username" username
  let password ← requiredField "password" password
  match ← throttleCheck (client ++ username) with
  | some seconds => throw (.tooManyAttempts (max seconds 1))
  | none =>
    let (users, _) ← countUsers codec
    if users = 0 then throw (.badRequest "setup_required")
    else
      match ← authenticate codec username password with
      | none => throw (.badRequest "invalid_credentials")
      | some (user, time) => createSession codec user (some ⟨user.username, time⟩)

/-- The tokens a request presents: its session's, and the two copies of its CSRF token. -/
structure Credentials where
  token : Option String
  csrf : Option (String × String)
  deriving DecidableEq

/-- Both copies of the CSRF token are the session's. -/
def Credentials.csrfValid (cred : Credentials) (session : Session) : Bool :=
  cred.csrf.any fun c => c.1 ≠ "" ∧ c.1 = c.2 ∧ c.1 = session.csrfToken

/-- Load the session a request names, if it is still live. -/
def resolveContext (cred : Credentials) : AuthProg Text (Option Session) :=
  match cred.token with
  | none => return none
  | some token => getSession codec token

/-- The gate of every request that needs a session: some user exists, the session is live, and a
state-changing request carries its CSRF token. -/
def gateRequest (cred : Credentials) (stateChanging : Bool) : AuthProg Text Session := do
  let session ← resolveContext codec cred
  let (users, _) ← countUsers codec
  if users = 0 then throw .setupRequired
  else
    match session with
    | none => throw .unauthenticated
    | some session =>
      if stateChanging && !cred.csrfValid session then throw (.forbidden "csrf_failed")
      else return session

/-- Invalidate the caller's session. -/
def logout (cred : Credentials) : AuthProg Text Unit := do
  let session ← gateRequest codec cred true
  let _ ← deleteSession session.token
  return ()

/-- The current user; a session that outlived its user goes. -/
def whoami (cred : Credentials) : AuthProg Text User := do
  let session ← gateRequest codec cred false
  let (found, _) ← getUser codec session.username
  match found with
  | some user => return user
  | none =>
    let _ ← deleteSession session.token
    throw (.notFound "not_authenticated")

/-- Replace the caller's password and end the other sessions. -/
def changePassword (cred : Credentials) (oldPassword newPassword : Option String) :
    AuthProg Text Nat := do
  let session ← gateRequest codec cred true
  let oldPassword ← requiredField "old_password" oldPassword
  let newPassword ← requiredField "new_password" newPassword
  orBadRequest (validatePassword newPassword)
  match ← authenticate codec session.username oldPassword with
  | none => throw (.badRequest "invalid_credentials")
  | some (user, _) =>
    let (outcome, time) ← updatePassword codec user.username newPassword
    orBadRequest outcome
    let revoked ← revokeSessionsFor codec user.username session.token
    -- storing the hash that is there already is no change
    match time with
    | none => return revoked
    | some time =>
      replyChanged ⟨user.username, session.token, time⟩
      return revoked

/-- The end of a provider login, once the provider has vouched for the identity. -/
def oauthCallback (identity : Identity) : AuthProg Text Session := do
  let user ← upsertProviderUser codec identity
  createSession codec user none

/-- Create the configured admin if it does not exist yet. -/
def adminFromEnv (username password : String) : AuthProg Text Unit := do
  orBadRequest (validateUsername username)
  orBadRequest (validatePassword password)
  let (found, _) ← getUser codec username
  if found.isSome then return ()
  else
    let created ← createUser codec .plain username password .admin
    let _ ← orBadRequest created
    return ()

/-- What reaches the dashboard. -/
inductive AuthCall where
  | status
  | setup (username password : Option String)
  | login (client : String) (username password : Option String)
  | logout (cred : Credentials)
  | whoami (cred : Credentials)
  | changePassword (cred : Credentials) (oldPassword newPassword : Option String)
  | oauthCallback (identity : Identity)
  | readSession (token : String)
  | replaceUser (user : User)
  | adminFromEnv (username password : String)
  | pruneExpiredSessions
  deriving DecidableEq

/-- A request, with its outcome thrown away. -/
def discarded {α : Type} (p : AuthProg Text α) : Prog (authSig Text) Unit :=
  p.run >>= fun _ => .ret ()

def AuthCall.prog : AuthCall → Prog (authSig Text) Unit
  | status => discarded (countUsers codec)
  | setup username password => discarded (Auth.setup codec username password)
  | login client username password => discarded (Auth.login codec client username password)
  | logout cred => discarded (Auth.logout codec cred)
  | whoami cred => discarded (Auth.whoami codec cred)
  | changePassword cred old new => discarded (Auth.changePassword codec cred old new)
  | oauthCallback identity => discarded (Auth.oauthCallback codec identity)
  | readSession token => discarded (getSession codec token)
  | replaceUser user => discarded (Auth.replaceUser codec user)
  | adminFromEnv username password => discarded (Auth.adminFromEnv codec username password)
  | pruneExpiredSessions => discarded (Auth.pruneExpiredSessions codec)

@[reducible] def authClients : Clients (authSig Text) := ⟨AuthCall, AuthCall.prog codec⟩

end Programs

end Flexiq.Auth
