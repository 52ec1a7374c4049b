import Wardn.Server.Session

/-!
# Reading a session back

`CreateSession` writes its text by formatting and `GetSession` cuts it at the quotes, with one
guard on the number of parts for two indices.  What comes back of a session that was created is
the user and the email up to its first quote (`session_round_trip_iff`); of an arbitrary text under
a session key, whatever its number of quotes allows (`session_decoding_iff`).
-/

namespace Wardn.Server

/-! ## Sessions that were created -/

/-- A session that was created can be read until its time has run out. -/
theorem getSession_createSession {sessions : SessionStore} {now wait : ℕ} {created read : Answers}
    {userID email : String} {token : Uuid}
    (issued : (createSession sessions now created userID email).2 = .ok token)
    (answered : read.redis = .answered) (live : wait < sessionTTL) :
    getSession (createSession sessions now created userID email).1 (now + wait) read token.text =
      parseSession (sessionData userID email) := by
  have delivered : created.redis = .answered := by
    cases sent : created.redis with
    | answered => rfl
    | failed error executed => simp [createSession, sent] at issued
  have own : token = created.sessionID := by
    simp only [createSession, delivered] at issued
    exact (Except.ok.inj issued).symm
  have stored : Expiring.get (createSession sessions now created userID email).1 (now + wait)
      (sessionKey token.text) = some (sessionData userID email) := by
    refine Expiring.get_eq_some_iff.mpr ⟨⟨sessionData userID email, now + sessionTTL⟩, ?_, rfl, ?_⟩
    · simp only [createSession, send, delivered, Delivery.executed, if_true, own]
      exact Expiring.exec_self sessions now
        (.set (sessionKey created.sessionID.text) (sessionData userID email) sessionTTL)
    · exact Nat.add_lt_add_left live now
  simp only [getSession, answered, stored]

theorem takeWhile_quote_iff (email : String) :
    String.ofList (email.toList.takeWhile (· ≠ '"')) = email ↔ '"' ∉ email.toList := by
  rw [← String.toList_inj, String.toList_ofList, List.takeWhile_eq_self_iff]
  refine ⟨fun all inside => ?_, fun quoteless c member => ?_⟩
  · simpa using all '"' inside
  · exact decide_eq_true fun same => quoteless (same ▸ member)

/-- **The round trip**: a session gives back the user and the email it was created for exactly when
the email holds no quote. -/
theorem session_round_trip_iff {sessions : SessionStore} {now wait : ℕ} {created read : Answers}
    {userID email : String} {token : Uuid} (quoteless : '"' ∉ userID.toList)
    (issued : (createSession sessions now created userID email).2 = .ok token)
    (answered : read.redis = .answered) (live : wait < sessionTTL) :
    getSession (createSession sessions now created userID email).1 (now + wait) read token.text =
        .ok (userID, email) ↔ '"' ∉ email.toList := by
  rw [getSession_createSession issued answered live, parseSession_eq quoteless,
    ← takeWhile_quote_iff]
  simp

/-- Redis answers; the session is the one named. -/
def answering (sessionID : Uuid) : Answers where
  redis := .answered
  postgres := .answered
  passwordHash := .error "not asked"
  passwordMatches := false
  sessionID := sessionID
  rowID := sessionID
  listing := writeJSON 200 .listing

theorem session_round_trip_of_plain_email :
    let answers := answering ⟨"0b1e", by decide, by decide⟩
    getSession (createSession Expiring.empty 5 answers "77" "ann@wardn.space").1 (5 + 60000) answers
      "0b1e" = .ok ("77", "ann@wardn.space") := by
  let token : Uuid := ⟨"0b1e", by decide, by decide⟩
  have issued : (createSession Expiring.empty 5 (answering token) "77" "ann@wardn.space").2 =
      .ok token := rfl
  have inTime : 60000 < sessionTTL := by decide
  have answered : (answering token).redis = .answered := rfl
  exact (session_round_trip_iff (by decide) issued answered inTime).mpr (by decide)

/-- An address may have a quoted local part. -/
theorem session_email_cut :
    let answers := answering ⟨"0b1f", by decide, by decide⟩
    getSession (createSession Expiring.empty 5 answers "77" "\"ann lee\"@wardn.space").1 6 answers
      "0b1f" = .ok ("77", "") := by
  rfl

/-! ## Any text under a session key -/

/-- Which of the three ways the decoder takes depends on the number of quotes. -/
theorem parseSession_cases (data : String) :
    (data.toList.count '"' < 5 ∧ parseSession data = .error .invalidCredentials) ∨
    ((data.toList.count '"' = 5 ∨ data.toList.count '"' = 6) ∧
      parseSession data = .error .indexOutOfRange) ∨
    (7 ≤ data.toList.count '"' ∧ ∃ userID email, parseSession data = .ok (userID, email)) := by
  have parts : (Strings.split data "\"").length = data.toList.count '"' + 1 := by
    rw [Strings.split, List.length_map]
    exact Strings.length_splitList_singleton '"' data.toList
  rw [parseSession]
  generalize Strings.split data "\"" = pieces at parts
  by_cases few : pieces.length < 6
  · exact .inl ⟨by omega, if_pos few⟩
  · right
    simp only [if_neg few]
    have fourth : pieces[3]? = some pieces[3] := List.getElem?_eq_getElem (by omega)
    by_cases enough : 7 < pieces.length
    · have eighth : pieces[7]? = some pieces[7] := List.getElem?_eq_getElem enough
      simp only [fourth, eighth]
      exact .inr ⟨by omega, _, _, rfl⟩
    · have none : pieces[7]? = none := List.getElem?_eq_none (by omega)
      simp only [fourth, none]
      exact .inl ⟨by omega, trivial⟩

/-- **Decoding** a stored text stays within its parts, and the middleware replies 401 or calls the
next handler, exactly when the text does not hold five or six quotes. -/
theorem session_decoding_iff {sessions : SessionStore} {now : ℕ} {answers : Answers}
    {request : Request} {data : String} (sent : extractToken request ≠ "")
    (answered : answers.redis = .answered)
    (stored : Expiring.get sessions now (sessionKey (extractToken request)) = some data)
    (ctx : Context) :
    (getSession sessions now answers (extractToken request) ≠ .error .indexOutOfRange ∧
      (middleware sessions now answers request ctx = .error (writeError 401 "unauthorized") ∨
        ∃ ctx', middleware sessions now answers request ctx = .ok ctx')) ↔
      data.toList.count '"' ≠ 5 ∧ data.toList.count '"' ≠ 6 := by
  have read : getSession sessions now answers (extractToken request) = parseSession data := by
    simp only [getSession, answered, stored]
  rw [middleware, if_neg sent, read]
  rcases parseSession_cases data with
    ⟨few, parsed⟩ | ⟨boundary, parsed⟩ | ⟨enough, id, email, parsed⟩
  · rw [parsed]
    refine iff_of_true ⟨fun crash => ?_, .inl rfl⟩ (by omega)
    cases crash
  · rw [parsed]
    exact iff_of_false (fun decoded => decoded.1 rfl) (by omega)
  · rw [parsed]
    refine iff_of_true ⟨fun crash => ?_, .inr ⟨_, rfl⟩⟩ (by omega)
    cases crash

/-- A text without a quote is refused. -/
theorem session_decoding_of_plain_text :
    let sessions := Expiring.exec Expiring.empty 0 (.set "session:5e55" "corrupted" 90)
    let request : Request := ⟨.me, "Bearer 5e55", none, ""⟩
    let answers := answering ⟨"0b20", by decide, by decide⟩
    getSession sessions 8 answers (extractToken request) ≠ .error .indexOutOfRange ∧
      (middleware sessions 8 answers request [] = .error (writeError 401 "unauthorized") ∨
        ∃ ctx', middleware sessions 8 answers request [] = .ok ctx') := by
  intro sessions request answers
  have stored : Expiring.get sessions 8 (sessionKey (extractToken request)) = some "corrupted" := by
    decide
  have sent : extractToken request ≠ "" := by decide
  exact (session_decoding_iff sent rfl stored []).mpr (by decide)

/-- A text that was cut off behind the name of the second field. -/
theorem truncated_session_crashes :
    let data := "\x7b\"user_id\":\"77\",\"email\""
    let sessions := Expiring.exec Expiring.empty 0 (.set "session:5e55" data 90)
    let request : Request := ⟨.me, "Bearer 5e55", none, ""⟩
    let answers := answering ⟨"0b21", by decide, by decide⟩
    getSession sessions 8 answers (extractToken request) = .error .indexOutOfRange ∧
      middleware sessions 8 answers request [] = .error (writeJSON 500 (.status "")) :=
  ⟨rfl, rfl⟩

end Wardn.Server
