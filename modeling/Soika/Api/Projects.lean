import Soika.Domain.Json
import Soika.Ports

/-! # Project requests

The retention settings that the project endpoints accept and store. Days are only
checked for their sign.
-/

namespace Soika

open Interaction

structure CreateProjectRequest where
  name : String
  retentionEvents : Option ℤ
  retentionDays : Option ℤ
  webhookUrl : Option String

structure UpdateProjectRequest where
  name : Option String
  retentionEvents : Option ℤ
  retentionDays : Option ℤ
  muted : Option Bool
  webhookUrl : Option String

/-- A webhook URL that is present, not blank and not valid. -/
def Config.refusesWebhook (config : Config) (url : Option String) : Bool :=
  (url.map trim).any fun url => url ≠ "" && !config.isValidWebhookUrl url

namespace Api.Projects

variable {S : Signature} (projects : ProjectRepository S) (config : Config)

/-- `POST /projects`; `authorized` holds the text the caller is refused with, if they are. -/
def create (req : CreateProjectRequest) (authorized : Except String Unit) :
    Prog S Error (Except String Project) :=
  if trim req.name = "" then return .error "name must not be empty"
  else
    match authorized with
    | .error msg => return .error msg
    | .ok () =>
      let retentionEvents :=
        (req.retentionEvents.filter (0 < ·)).getD config.defaultEventsRetention
      let retentionDays := (req.retentionDays.filter (0 < ·)).getD 0
      if config.refusesWebhook req.webhookUrl then
        return .error "webhook_url must be a valid http(s) URL"
      else do
        let project ← projects.create retentionEvents retentionDays
        return .ok project

/-- The checks of `PATCH /projects/{id}`. -/
def checkUpdate (req : UpdateProjectRequest) : Except String ProjectUpdate :=
  if req.name.any fun name => trim name = "" then .error "name must not be empty"
  else if req.retentionEvents.any (· ≤ 0) then .error "retention_events must be positive"
  else if req.retentionDays.any (· < 0) then .error "retention_days must not be negative"
  else if config.refusesWebhook req.webhookUrl then
    .error "webhook_url must be a valid http(s) URL"
  else .ok ⟨req.retentionEvents, req.retentionDays, req.muted⟩

/-- `PATCH /projects/{id}`; `target` is the project of an admin, or the text they are refused with. -/
def update (req : UpdateProjectRequest) (target : Except String Id) :
    Prog S Error (Except String Project) :=
  match target with
  | .error msg => return .error msg
  | .ok projectId =>
    match checkUpdate config req with
    | .error msg => return .error msg
    | .ok u => do
      let project ← projects.update projectId u
      return .ok project

end Api.Projects

end Soika
