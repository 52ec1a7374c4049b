import Wardn.Server.Exchange

/-!
# Sessions

`CreateSession` stores a text that is put together from the user's id and email without escaping,
and `GetSession` takes it apart at the quotes.  The id comes first and holds no quote, so whatever
stands in the email, the fourth part is the id (`parseSession_sessionData`).
-/

namespace Wardn.Server

/-- 24 hours, in milliseconds. -/
def sessionTTL : ℕ := 24 * 60 * 60 * 1000

/-- The errors of the package; `indexOutOfRange` is the run-time panic, which ends the handler. -/
inductive AuthError
  | invalidCredentials
  | userExists
  | other (text : String)
  | indexOutOfRange

/-- Redis: texts under keys, each with the time it is removed. -/
abbrev SessionStore := Expiring.Store String String

/-- The key of a session. -/
def sessionKey (id : String) : String := "session:" ++ id

theorem sessionKey_inj {id id' : String} : sessionKey id = sessionKey id' ↔ id = id' :=
  String.append_right_inj "session:"

/-- The text that `Create` formats; the parts are not escaped. -/
def sessionData (userID email : String) : String :=
  "\x7b\"user_id\":\"" ++ userID ++ "\",\"email\":\"" ++ email ++ "\"\x7d"

/-- A command that is sent to Redis. -/
def send (delivery : Delivery) (sessions : SessionStore) (now : ℕ)
    (command : Expiring.Command String String) : SessionStore :=
  if delivery.executed then Expiring.exec sessions now command else sessions

/-- `Create`: the session is stored for a week under a new UUID. -/
def createSession (sessions : SessionStore) (now : ℕ) (answers : Answers) (userID email : String) :
    SessionStore × Except AuthError Uuid :=
  let sessionID := answers.sessionID
  let command := .set (sessionKey sessionID.text) (sessionData userID email) sessionTTL
  (send answers.redis sessions now command,
    match answers.redis with
    | .failed error _ => .error (.other ("create session: " ++ error))
    | .answered => .ok sessionID)

/-- What `GetSession` makes of the stored text. -/
def parseSession (data : String) : Except AuthError (String × String) :=
  let parts := Strings.split data "\""
  if parts.length < 6 then .error .invalidCredentials
  else
    match parts[3]?, parts[7]? with
    | some userID, some email => .ok (userID, email)
    | _, _ => .error .indexOutOfRange

/-- `Get`: the user and the email of a stored session, split at the quotes. -/
def getSession (sessions : SessionStore) (now : ℕ) (answers : Answers) (sessionID : String) :
    Except AuthError (String × String) :=
  match answers.redis with
  | .failed error _ => .error (.other ("get session: " ++ error))
  | .answered =>
    match Expiring.get sessions now (sessionKey sessionID) with
    | none => .error .invalidCredentials
    | some data => parseSession data

/-- `Destroy`. -/
def destroySession (sessions : SessionStore) (now : ℕ) (answers : Answers) (sessionID : String) :
    SessionStore :=
  send answers.redis sessions now (.del (sessionKey sessionID))

/-! ## The middleware -/

/-- `extractToken`: the bearer token, else the cookie. -/
def extractToken (request : Request) : String :=
  if Strings.hasPrefix request.authorization "Bearer " then
    Strings.trimPrefix request.authorization "Bearer "
  else
    match request.cookie with
    | some value => value
    | none => ""

/-- The key of package `auth`. -/
def userIDKey : ContextKey := ⟨"auth.contextKey", "user_id"⟩

/-- `ContextWithUserID`. -/
def contextWithUserID (ctx : Context) (userID : String) : Context := ctx.withValue userIDKey userID

/-- `UserIDFromContext`; no user is the empty text. -/
def userIDFromContext (ctx : Context) : String := (ctx.value userIDKey).getD ""

theorem userIDFromContext_contextWithUserID (ctx : Context) (userID : String) :
    userIDFromContext (contextWithUserID ctx userID) = userID := by
  rw [userIDFromContext, contextWithUserID, Context.value_withValue, if_pos rfl]
  rfl

/-- A middleware replies itself or calls the next handler with a context; `Recoverer` replies to
a panic. -/
def middleware (sessions : SessionStore) (now : ℕ) (answers : Answers) (request : Request)
    (ctx : Context) : Except Reply Context :=
  let token := extractToken request
  if token = "" then .error (writeError 401 "unauthorized")
  else
    match getSession sessions now answers token with
    | .error .indexOutOfRange => .error (writeJSON 500 (.status ""))
    | .error _ => .error (writeError 401 "unauthorized")
    | .ok (userID, _) => .ok (contextWithUserID ctx userID)

/-! ## What is read back -/

/-- The parts of a session text whose user id holds no quote; the last ones come from the email. -/
theorem split_sessionData {userID : String} (quoteless : '"' ∉ userID.toList) (email : String) :
    Strings.split (sessionData userID email) "\"" =
      ["\x7b", "user_id", ":", userID, ",", "email", ":"] ++
        (Strings.splitList ['"'] email.toList).map String.ofList ++ ["\x7d"] := by
  have apart : '"' ∉ ([] : List Char) := List.not_mem_nil
  let front : List (List Char) :=
    [['\x7b'], "user_id".toList, [':'], userID.toList, [','], "email".toList, [':']]
  have layout : (sessionData userID email).toList =
      ['"'].intercalate front ++ (['"'] ++ (email.toList ++ (['"'] ++ ['\x7d']))) := by
    simp [sessionData, front, List.intercalate_cons_cons]
  have quotelessFront : ∀ part ∈ front, '"' ∉ part := by
    simpa [front] using quoteless
  have pieces : Strings.splitList ['"'] (['"'].intercalate front) = front :=
    Strings.splitList_intercalate apart (List.cons_ne_nil _ _) fun part member occurs =>
      quotelessFront part member (occurs.subset List.mem_cons_self)
  have last : Strings.splitList ['"'] ['\x7d'] = [['\x7d']] := by decide
  rw [Strings.split]
  change (Strings.splitList ['"'] _).map String.ofList = _
  rw [layout, Strings.splitList_append_sep_append apart, pieces,
    Strings.splitList_append_sep_append apart, last]
  simp [front]

/-- The user id is read back, and the email up to its first quote. -/
theorem parseSession_eq {userID : String} (quoteless : '"' ∉ userID.toList) (email : String) :
    parseSession (sessionData userID email) =
      .ok (userID, String.ofList (email.toList.takeWhile (· ≠ '"'))) := by
  have head := Strings.head?_splitList_singleton '"' email.toList
  obtain ⟨first, later, cut⟩ :=
    List.exists_cons_of_ne_nil (Strings.splitList_ne_nil ['"'] email.toList)
  rw [cut, List.head?_cons, Option.some_inj] at head
  rw [parseSession, split_sessionData quoteless, cut, ← head]
  simp

/-- No email shifts the part the user id is read from. -/
theorem parseSession_sessionData (id : Uuid) (email : String) :
    ∃ rest, parseSession (sessionData id.text email) = .ok (id.text, rest) :=
  ⟨_, parseSession_eq id.quote_not_mem email⟩

/-- The text of a session determines its user, whatever the emails. -/
theorem sessionData_id_inj {id id' : Uuid} {email email' : String}
    (same : sessionData id.text email = sessionData id'.text email') : id = id' := by
  obtain ⟨rest, read⟩ := parseSession_sessionData id email
  obtain ⟨rest', read'⟩ := parseSession_sessionData id' email'
  rw [same, read'] at read
  have pairs := Except.ok.inj read
  exact Uuid.ext_text (congrArg Prod.fst pairs).symm

/-- A session of this user that can be read at this time. -/
def Live (sessions : SessionStore) (now : ℕ) (token : String) (id : Uuid) : Prop :=
  ∃ email, Expiring.get sessions now (sessionKey token) = some (sessionData id.text email)

theorem Live.id_unique {sessions : SessionStore} {now : ℕ} {token : String} {id id' : Uuid}
    (live : Live sessions now token id) (live' : Live sessions now token id') : id = id' := by
  obtain ⟨email, read⟩ := live
  obtain ⟨email', read'⟩ := live'
  rw [read, Option.some_inj] at read'
  exact sessionData_id_inj read'

/-- Every stored text is one that `CreateSession` has put together. -/
def WellFormed (sessions : SessionStore) : Prop :=
  ∀ key entry, sessions key = some entry → ∃ (id : Uuid) (email : String),
    entry.value = sessionData id.text email

theorem wellFormed_empty : WellFormed Expiring.empty := by
  intro key entry stored
  cases stored

/-- `Get` answers with a user exactly when the token is live for him and Redis answers. -/
theorem getSession_eq_ok_iff {sessions : SessionStore} (wellFormed : WellFormed sessions)
    {now : ℕ} {answers : Answers} {token userID : String} :
    (∃ email, getSession sessions now answers token = .ok (userID, email)) ↔
      answers.redis = .answered ∧ ∃ id : Uuid, Live sessions now token id ∧ userID = id.text := by
  rw [getSession]
  cases answers.redis with
  | failed error executed => simp
  | answered =>
      cases read : Expiring.get sessions now (sessionKey token) with
      | none => simp [Live, read]
      | some data =>
          obtain ⟨entry, stored, rfl, -⟩ := Expiring.get_eq_some_iff.mp read
          obtain ⟨id, email, same⟩ := wellFormed _ _ stored
          obtain ⟨rest, parsed⟩ := parseSession_sessionData id email
          rw [same] at read ⊢
          simp only [parsed, Except.ok.injEq, Prod.mk.injEq, exists_and_left, exists_eq', and_true,
            true_and]
          refine ⟨fun own => ⟨id, ⟨email, read⟩, own.symm⟩, fun found => ?_⟩
          obtain ⟨id', live, rfl⟩ := found
          rw [Live.id_unique ⟨email, read⟩ live]

/-- The middleware passes a request exactly when its token has a session, whose user it puts into
the context. -/
theorem middleware_eq_ok_iff_getSession {sessions : SessionStore} {now : ℕ} {answers : Answers}
    {request : Request} {ctx ctx' : Context} :
    middleware sessions now answers request ctx = .ok ctx' ↔
      extractToken request ≠ "" ∧ ∃ userID,
        (∃ email, getSession sessions now answers (extractToken request) = .ok (userID, email)) ∧
          ctx' = contextWithUserID ctx userID := by
  rw [middleware]
  by_cases absent : extractToken request = ""
  · simp [absent]
  · rw [if_neg absent]
    cases getSession sessions now answers (extractToken request) with
    | error failure => cases failure <;> simp
    | ok pair =>
        obtain ⟨userID, email⟩ := pair
        simp [absent, eq_comm]

/-- The middleware calls the next handler with the user of the live session, and with no other. -/
theorem middleware_eq_ok_iff {sessions : SessionStore} (wellFormed : WellFormed sessions)
    {now : ℕ} {answers : Answers} {request : Request} {ctx ctx' : Context} :
    middleware sessions now answers request ctx = .ok ctx' ↔
      extractToken request ≠ "" ∧ answers.redis = .answered ∧
        ∃ id : Uuid, Live sessions now (extractToken request) id ∧
          ctx' = contextWithUserID ctx id.text := by
  rw [middleware_eq_ok_iff_getSession]
  refine and_congr_right fun _ => ?_
  constructor
  · rintro ⟨userID, session, rfl⟩
    obtain ⟨answered, id, live, rfl⟩ := (getSession_eq_ok_iff wellFormed).mp session
    exact ⟨answered, id, live, rfl⟩
  · rintro ⟨answered, id, live, rfl⟩
    exact ⟨id.text, (getSession_eq_ok_iff wellFormed).mpr ⟨answered, id, live, rfl⟩, rfl⟩

end Wardn.Server
