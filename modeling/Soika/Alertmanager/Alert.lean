import Soika.Domain.Notifications

/-! # Rendering an alert

The configuration a project's alerts are sent with, the variables of an issue, and
the alert that is rendered from them.
-/

namespace Soika

/-- What the lifecycle reads from the configuration of the process. -/
structure AlertSettings where
  /-- `notifications_alertmanager_enabled` -/
  enabled : Bool
  alertmanagerUrl : Option String
  baseUrl : String
  /-- The names of the environment, when it manages the service. -/
  envNames : Option AlertmanagerNames

/-- `Uuid::to_string` -/
structure UuidText where
  text : Id → String
  injective : Function.Injective text

/-- Seconds. -/
def ALERT_TTL : ℤ := 300

/-- `trim_end_matches('/')` -/
def trimEndSlashes (s : String) : String :=
  String.ofList (s.toList.reverse.dropWhile (· = '/')).reverse

namespace AlertmanagerConfig

/-- `project_config`: the labels of the project over those of the channel, and the severity of
the project over both. -/
def forProject (config : AlertmanagerConfig)
    (projectLabels : OrdMap String (OrdMap String String)) (slug : String)
    (names : AlertmanagerNames) (severity : Option AlertSeverity) : AlertmanagerConfig :=
  let config :=
    match projectLabels.get slug with
    | some labels => { config with labels := config.labels.extend labels.entries }
    | none => config
  match severity with
  | some severity =>
    { config with
      labels := (config.labels.insert "alertname" (names.forSeverity severity)).insert "severity"
        severity.asStr }
  | none => config

def endpoint (config : AlertmanagerConfig) : String :=
  trimEndSlashes config.url ++ "/api/v2/alerts"

end AlertmanagerConfig

/-- The values of the variables for an issue; `idText` is `Uuid::to_string`. -/
def variableEntries (idText : Id → String) (baseUrl org : String) (project : ProjectRow)
    (issue : Issue) (trigger : String) : List (String × String) :=
  [("project_name", project.name),
    ("project_slug", project.slug),
    ("project_id", idText project.id),
    ("team_id", idText project.teamId),
    ("issue_id", idText issue.id),
    ("issue_short_id", issue.shortId),
    ("title", issue.title),
    ("culprit", issue.culprit.getD ""),
    ("level", issue.level.getD "error"),
    ("environment", issue.environment.getD ""),
    ("release", issue.release.getD ""),
    ("event_count", toString issue.eventCount),
    ("first_seen", String.ofList issue.firstSeen.toRfc3339),
    ("last_seen", String.ofList issue.lastSeen.toRfc3339),
    ("issue_url",
      trimEndSlashes baseUrl ++ "/projects/" ++ project.slug ++ "/issues/" ++ issue.shortId),
    ("org_name", org),
    ("trigger", trigger)]

def variablesOf (idText : Id → String) (baseUrl org : String) (project : ProjectRow)
    (issue : Issue) (trigger : String) : OrdMap String String :=
  .ofList (variableEntries idText baseUrl org project issue trigger)

def required (vars : OrdMap String String) (key : String) : Except Error String :=
  match vars.get key with
  | some value => .ok value
  | none => .error (.validation ("missing notification variable: " ++ key))

def renderContent (config : AlertmanagerConfig) (vars : OrdMap String String) :
    Except Error (OrdMap String String × OrdMap String String) := do
  let labels ← config.labels.mapM (renderTemplate · vars)
  let labels := labels.insert "issue_id" (← required vars "issue_id")
  let labels := labels.insert "project_id" (← required vars "project_id")
  if (labels.get "alertname").all fun s => trim s = "" then
    throw (.validation "rendered alertname must not be empty")
  let annotations ← config.annotations.mapM (renderTemplate · vars)
  return (labels, annotations)

/-- The instant some seconds after another, when chrono has it. -/
def secondsAfter (t : Timestamp) (s : ℤ) : Option Timestamp := (Duration.seconds s).bind t.add

/-- `render_alert`, which panics when the alert would end beyond the last instant. -/
def renderAlert (config : AlertmanagerConfig) (vars : OrdMap String String) (now : Timestamp) :
    Option (Except Error AlertmanagerAlert) :=
  match renderContent config vars with
  | .error e => some (.error e)
  | .ok (labels, annotations) =>
    (secondsAfter now ALERT_TTL).map fun endsAt => do
      let generatorUrl ← required vars "issue_url"
      return ⟨labels, annotations, now, endsAt, generatorUrl⟩

section

variable {idText : Id → String} {baseUrl org : String} {project : ProjectRow} {issue : Issue}
  {trigger : String}

theorem variableNames_nodup :
    ((variableEntries idText baseUrl org project issue trigger).map Prod.fst).Nodup := by
  change VARIABLES.Nodup
  simp [VARIABLES]

theorem exists_get_variablesOf {name : String} (h : name ∈ VARIABLES) :
    ∃ v, (variablesOf idText baseUrl org project issue trigger).get name = some v :=
  OrdMap.exists_get_extend (.inr h)

theorem get_variablesOf_issueId :
    (variablesOf idText baseUrl org project issue trigger).get "issue_id" =
      some (idText issue.id) := by
  unfold variablesOf OrdMap.ofList
  refine OrdMap.get_extend_of_mem variableNames_nodup ?_
  simp [variableEntries]

end

theorem required_eq_ok {vars : OrdMap String String} {key value : String} :
    required vars key = .ok value ↔ vars.get key = some value := by
  unfold required
  split <;> simp_all

/-- The content of an alert: the rendered labels with the ids over them, and a name. -/
theorem renderContent_eq_ok {config : AlertmanagerConfig} {vars : OrdMap String String}
    {labels annotations : OrdMap String String} :
    renderContent config vars = .ok (labels, annotations) ↔
      ∃ rendered issueId projectId, config.labels.mapM (renderTemplate · vars) = .ok rendered ∧
        vars.get "issue_id" = some issueId ∧ vars.get "project_id" = some projectId ∧
        labels = (rendered.insert "issue_id" issueId).insert "project_id" projectId ∧
        (∃ name, labels.get "alertname" = some name ∧ trim name ≠ "") ∧
        config.annotations.mapM (renderTemplate · vars) = .ok annotations := by
  simp only [renderContent, bind_eq_ok, required_eq_ok]
  constructor
  · rintro ⟨rendered, hr, issueId, hi, projectId, hp, h⟩
    split_ifs at h with hname
    · cases h
    · obtain ⟨ann, ha, he⟩ := bind_eq_ok.mp h
      obtain ⟨rfl, rfl⟩ := Prod.mk.inj (Except.ok.inj he)
      refine ⟨rendered, issueId, projectId, hr, hi, hp, rfl, ?_, ha⟩
      rw [Option.all_eq_true_iff_get] at hname
      push Not at hname
      obtain ⟨hsome, hname⟩ := hname
      exact ⟨_, Option.eq_some_of_isSome hsome, by simpa using hname⟩
  · rintro ⟨rendered, issueId, projectId, hr, hi, hp, rfl, ⟨name, hn, hblank⟩, ha⟩
    refine ⟨rendered, hr, issueId, hi, projectId, hp, ?_⟩
    rw [hn, if_neg (by simpa using hblank)]
    exact bind_eq_ok.mpr ⟨annotations, ha, rfl⟩

theorem content_of_renderAlert {config : AlertmanagerConfig} {vars : OrdMap String String}
    {now : Timestamp} {alert : AlertmanagerAlert}
    (h : renderAlert config vars now = some (.ok alert)) :
    renderContent config vars = .ok (alert.labels, alert.annotations) := by
  unfold renderAlert at h
  split at h
  · cases h
  · rename_i labels annotations hcontent
    obtain ⟨endsAt, -, hok⟩ := Option.map_eq_some_iff.mp h
    obtain ⟨url, -, hurl⟩ := bind_eq_ok.mp hok
    obtain rfl := Except.ok.inj hurl
    exact hcontent

theorem issueId_of_renderAlert {config : AlertmanagerConfig} {vars : OrdMap String String}
    {now : Timestamp} {alert : AlertmanagerAlert}
    (h : renderAlert config vars now = some (.ok alert)) :
    alert.labels.get "issue_id" = vars.get "issue_id" := by
  obtain ⟨rendered, issueId, projectId, -, hi, -, hlabels, -⟩ :=
    renderContent_eq_ok.mp (content_of_renderAlert h)
  rw [hlabels, OrdMap.get_insert, if_neg (by decide), OrdMap.get_insert, if_pos rfl, hi]

end Soika
