import Wardn.Effect

/-!
# Notifications

`internal/notify/dispatcher.go` and `sendNotification`.  A message is sent when the request for it
is made and the HTTP client takes it; what becomes of the exchange is dropped by the source, so the
call has no answer here.
-/

namespace Wardn

/-- `sendSlack`; the body of the request is one string, which `json.Marshal` always encodes. -/
def sendSlack (env : Outcomes) (cfg : Option SlackConfig) (message : String) : List Effect :=
  match cfg with
  | none => []
  | some cfg =>
    if cfg.webhookURL = "" then []
    else
      match env.newRequest cfg.webhookURL with
      | some _ => []
      | none => [.sendSlack cfg.webhookURL message]

/-- An error under the verb `%v`. -/
def errText (err : Option String) : String := err.getD "<nil>"

/-- `Dispatcher.Dispatch`. -/
def dispatch (env : Outcomes) (app : GitApplication) (syncSuccess : Bool)
    (syncErr : Option String) : List Effect :=
  match app.spec.notifications with
  | none => []
  | some cfg =>
    (if syncSuccess ∧ cfg.onSyncSuccess then
      sendSlack env cfg.slack
        ("✅ Sync succeeded for " ++ app.name ++ " (revision: " ++ app.status.revision ++ ")")
    else []) ++
    (if ¬ syncSuccess ∧ cfg.onSyncFailure then
      sendSlack env cfg.slack ("❌ Sync failed for " ++ app.name ++ ": " ++ errText syncErr)
    else [])

/-- `sendNotification` of the reconciler. -/
def sendNotification (env : Outcomes) (app : GitApplication) (success : Bool)
    (err : Option String) : List Effect :=
  match app.spec.notifications with
  | none => []
  | some _ => dispatch env app success err

/-- Notifications are Slack messages and nothing else. -/
theorem sendNotification_isSlack (env : Outcomes) (app : GitApplication) (success : Bool)
    (err : Option String) :
    ∀ e ∈ sendNotification env app success err, ∃ url message, e = .sendSlack url message := by
  have slack : ∀ cfg message, ∀ e ∈ sendSlack env cfg message,
      ∃ url message, e = .sendSlack url message := by
    intro cfg message e member
    unfold sendSlack at member
    split at member
    · cases member
    · split at member
      · cases member
      · split at member
        · cases member
        · exact ⟨_, _, List.mem_singleton.mp member⟩
  intro e member
  unfold sendNotification dispatch at member
  split at member
  · cases member
  · split at member
    · cases member
    · rcases List.mem_append.mp member with onSuccess | onFailure
      · split at onSuccess
        · exact slack _ _ e onSuccess
        · cases onSuccess
      · split at onFailure
        · exact slack _ _ e onFailure
        · cases onFailure

end Wardn
