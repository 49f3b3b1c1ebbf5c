import Mathlib.Data.List.Nodup
import Soika.Domain.Membership
import Soika.Domain.Notifications

/-! # The configuration file

Declarative management of projects and teams: the file, and the checks it passes when it
is read.
-/

namespace Soika

inductive ManagementSource where
  | ui
  | env
  | yaml
  deriving DecidableEq

inductive OrphanPolicy where
  | readonly
  | delete
  deriving DecidableEq

structure ManagementSettings where
  projectSource : ManagementSource
  teamSource : ManagementSource
  serviceSource : ManagementSource
  notificationSource : ManagementSource
  projectOrphanPolicy : OrphanPolicy
  teamOrphanPolicy : OrphanPolicy

structure EmailGrant where
  email : String
  role : TeamRole
  deriving DecidableEq

structure GroupGrant where
  group : String
  role : TeamRole
  deriving DecidableEq

structure TeamConfig where
  name : String
  members : Option (List EmailGrant)
  ssoGroups : Option (List GroupGrant)
  deriving DecidableEq

structure ProjectConfig where
  alertmanagerSeverity : Option AlertSeverity
  alertmanagerIntervalSeconds : Option ℤ
  slug : String
  name : String
  team : String
  retentionEvents : Option ℤ
  retentionDays : Option ℤ
  webhookUrl : Option String
  deriving DecidableEq

structure ConfigFile where
  version : ℕ
  notifications : Option NotificationConfig
  projects : Option (List ProjectConfig)
  teams : Option (List TeamConfig)
  alertmanagerProjectLabels : OrdMap String (OrdMap String String)

/-- What the code takes from its platform: Unicode case and escapes, the URL parser, and
what the database driver says. -/
structure Platform where
  /-- `str::to_lowercase` -/
  toLowercase : String → String
  /-- `LOWER` in SQL -/
  sqlLower : String → String
  /-- The `Debug` text of a string. -/
  debug : String → String
  /-- `reqwest::Url::parse` -/
  parseUrl : String → Option Url
  dbText : DbError → String
  uniqueViolation : DbError
  foreignKeyViolation : DbError

namespace TeamConfig

def memberList (t : TeamConfig) : List EmailGrant := t.members.getD []

def groupList (t : TeamConfig) : List GroupGrant := t.ssoGroups.getD []

end TeamConfig

namespace ConfigFile

def projectList (file : ConfigFile) : List ProjectConfig := file.projects.getD []

def teamList (file : ConfigFile) : List TeamConfig := file.teams.getD []

end ConfigFile

section

variable (P : Platform)

def isValidWebhookUrl (value : String) : Bool :=
  match P.parseUrl value with
  | some url => url.scheme = "http" || url.scheme = "https"
  | none => false

/-- The errors of `validate_project_slugs`, from the slugs and the duplicates seen so far. -/
def slugErrors (seen duplicates : List String) : List ProjectConfig → List String
  | [] => []
  | p :: ps =>
    match validateSlug p.slug with
    | .error reason =>
      ("invalid project slug " ++ P.debug p.slug ++ ": " ++ reason.message) ::
        slugErrors seen duplicates ps
    | .ok () =>
      if p.slug ∈ seen then
        if p.slug ∈ duplicates then slugErrors seen duplicates ps
        else
          ("duplicate project slug " ++ P.debug p.slug) ::
            slugErrors seen (p.slug :: duplicates) ps
      else slugErrors (p.slug :: seen) duplicates ps

def joinErrors (errors : List String) : Except Error Unit :=
  if errors = [] then .ok () else .error (.validation ("; ".intercalate errors))

def validateProjectSlugs (projects : List ProjectConfig) : Except Error Unit :=
  joinErrors (slugErrors P [] [] projects)

def validateInterval (seconds : ℤ) : Except Error Unit :=
  rejectIf (¬ (10 ≤ seconds ∧ seconds ≤ 86400))
    "Alertmanager interval must be between 10 and 86400 seconds"

def validateProject (p : ProjectConfig) : Except Error Unit := do
  (p.alertmanagerIntervalSeconds.elim (.ok ()) validateInterval : Except Error Unit)
  rejectIf (trim p.name = "" ∨ trim p.team = "") "project name and team are required"
  rejectIf (p.retentionEvents.any (· < 1) ∨ p.retentionDays.any (· < 0))
    "invalid project retention"
  rejectIf (p.webhookUrl.any fun v => ! isValidWebhookUrl P v) "invalid webhook URL"

def validateProjects (projects : List ProjectConfig) : Except Error Unit := do
  validateProjectSlugs P projects
  projects.forM (validateProject P)

def validateEmails (emails : List String) : List EmailGrant → Except Error Unit
  | [] => .ok ()
  | m :: ms => do
    rejectIf ('@' ∉ m.email.toList ∨ m.email.toList.any isWhitespace ∨
      P.toLowercase m.email ∈ emails) "invalid or duplicate member email"
    validateEmails (P.toLowercase m.email :: emails) ms

def validateGroups (groups : List String) : List GroupGrant → Except Error Unit
  | [] => .ok ()
  | g :: gs => do
    rejectIf (trim g.group = "" ∨ g.group ∈ groups) "empty or duplicate SSO group"
    validateGroups (g.group :: groups) gs

def validateTeamGrants (t : TeamConfig) : Except Error Unit := do
  rejectIf (t.members = none ∧ t.ssoGroups = none)
    "team requires members or sso_groups (use members: [] for an empty team)"
  validateEmails P [] t.memberList
  validateGroups [] t.groupList

def validateTeamsFrom (teams : List String) : List TeamConfig → Except Error Unit
  | [] => .ok ()
  | t :: ts => do
    rejectIf (trim t.name = "" ∨ t.name ∈ teams) "empty or duplicate team name"
    validateTeamGrants P t
    validateTeamsFrom (t.name :: teams) ts

def validateTeams (teams : List TeamConfig) : Except Error Unit := validateTeamsFrom P [] teams

def validateProjectLabels (entry : String × OrdMap String String) : Except Error Unit :=
  match validateSlug entry.1 with
  | .error reason =>
    .error (.validation ("invalid project slug " ++ P.debug entry.1 ++
      " in Alertmanager labels: " ++ reason.message))
  | .ok () =>
    let config := AlertmanagerConfig.default
    { config with labels := config.labels.extend entry.2.entries }.validate P.parseUrl

/-- A section that the file manages must be there; one that the UI manages is ignored. -/
def requireSection {α : Type} (source : ManagementSource) (declared : Option α) (msg : String) :
    Except Error (Option α) :=
  if source = .ui then .ok none
  else
    match declared with
    | none => .error (.validation msg)
    | some x => .ok (some x)

def requireNotifications (settings : ManagementSettings) (file : ConfigFile) : Except Error Unit :=
  if settings.notificationSource = .yaml then
    match file.notifications with
    | none => .error (.validation "notifications section is required")
    | some notifications => notifications.validateStored P.parseUrl
  else .ok ()

/-- `parse`, from the deserialized file on; `labels` are those of its notifications section. -/
def parseDeserialized (settings : ManagementSettings) (labels : OrdMap String (OrdMap String String))
    (file : ConfigFile) : Except Error ConfigFile := do
  let labels := if settings.serviceSource = .env then labels else .empty
  labels.entries.forM (validateProjectLabels P)
  rejectIf (file.version ≠ 1) "configuration version must be 1"
  let projects ←
    requireSection settings.projectSource file.projects "projects section is required"
  let teams ← requireSection settings.teamSource file.teams "teams section is required"
  requireNotifications P settings file
  let file := { file with projects, teams, alertmanagerProjectLabels := labels }
  validateProjects P file.projectList
  validateTeams P file.teamList
  return file

/-- A file that has been parsed under the settings. -/
structure ParsedFile (settings : ManagementSettings) where
  file : ConfigFile
  parsed : ∃ labels raw, parseDeserialized P settings labels raw = .ok file

end

section

variable {P : Platform} {settings : ManagementSettings} {file : ConfigFile}

/-- Keys are distinct, intervals are in range, and exactly the managed sections are there. -/
structure ConfigFile.Accepted (P : Platform) (settings : ManagementSettings) (file : ConfigFile) :
    Prop where
  projectsUi : file.projects = none ↔ settings.projectSource = .ui
  teamsUi : file.teams = none ↔ settings.teamSource = .ui
  notifications : settings.notificationSource = .yaml →
    ∃ n, file.notifications = some n ∧ n.validateStored P.parseUrl = .ok ()
  slugs : (file.projectList.map ProjectConfig.slug).Nodup
  intervals : ∀ p ∈ file.projectList, ∀ i, p.alertmanagerIntervalSeconds = some i →
    10 ≤ i ∧ i ≤ 86400
  names : (file.teamList.map TeamConfig.name).Nodup
  emails : ∀ t ∈ file.teamList, (t.memberList.map fun g => P.toLowercase g.email).Nodup
  groups : ∀ t ∈ file.teamList, (t.groupList.map GroupGrant.group).Nodup

def NewKeys (seen keys : List String) : Prop := keys.Nodup ∧ ∀ k ∈ keys, k ∉ seen

theorem NewKeys.nil (seen : List String) : NewKeys seen [] := ⟨List.nodup_nil, nofun⟩

theorem NewKeys.cons {seen keys : List String} {k : String} (hk : k ∉ seen)
    (h : NewKeys (k :: seen) keys) : NewKeys seen (k :: keys) := by
  refine ⟨List.nodup_cons.mpr ⟨fun hmem => h.2 k hmem List.mem_cons_self, h.1⟩, ?_⟩
  exact List.forall_mem_cons.mpr ⟨hk, fun l hl hseen => h.2 l hl (List.mem_cons_of_mem k hseen)⟩

/-- While no duplicate has been met, the slugs that pass are new. -/
theorem slugErrors_eq_nil {seen : List String} {ps : List ProjectConfig}
    (h : slugErrors P seen [] ps = []) : NewKeys seen (ps.map ProjectConfig.slug) := by
  induction ps generalizing seen with
  | nil => exact .nil seen
  | cons p ps ih =>
    rw [slugErrors] at h
    cases hslug : validateSlug p.slug with
    | error reason => simp [hslug] at h
    | ok u =>
      by_cases hseen : p.slug ∈ seen
      · simp [hslug, hseen] at h
      · simp only [hslug, hseen, if_false] at h
        exact .cons hseen (ih h)

theorem validateEmails_eq_ok {seen : List String} {ms : List EmailGrant} {u : Unit}
    (h : validateEmails P seen ms = .ok u) :
    NewKeys seen (ms.map fun m => P.toLowercase m.email) := by
  induction ms generalizing seen with
  | nil => exact .nil seen
  | cons m ms ih =>
    obtain ⟨_, hm, hms⟩ := bind_eq_ok.mp h
    exact .cons (fun hseen => rejectIf_eq_ok.mp hm (.inr (.inr hseen))) (ih hms)

theorem validateGroups_eq_ok {seen : List String} {gs : List GroupGrant} {u : Unit}
    (h : validateGroups seen gs = .ok u) : NewKeys seen (gs.map GroupGrant.group) := by
  induction gs generalizing seen with
  | nil => exact .nil seen
  | cons g gs ih =>
    obtain ⟨_, hg, hgs⟩ := bind_eq_ok.mp h
    exact .cons (fun hseen => rejectIf_eq_ok.mp hg (.inr hseen)) (ih hgs)

theorem validateTeamsFrom_eq_ok {seen : List String} {ts : List TeamConfig} {u : Unit}
    (h : validateTeamsFrom P seen ts = .ok u) : NewKeys seen (ts.map TeamConfig.name) ∧
      ∀ t ∈ ts, validateTeamGrants P t = .ok () := by
  induction ts generalizing seen with
  | nil => exact ⟨.nil seen, nofun⟩
  | cons t ts ih =>
    obtain ⟨_, ht, hts⟩ := bind_eq_ok.mp h
    obtain ⟨_, hgrants, hts⟩ := bind_eq_ok.mp hts
    obtain ⟨hnames, hall⟩ := ih hts
    exact ⟨.cons (fun hseen => rejectIf_eq_ok.mp ht (.inr hseen)) hnames,
      List.forall_mem_cons.mpr ⟨hgrants, hall⟩⟩

theorem validateTeamGrants_eq_ok {t : TeamConfig} {u : Unit} (h : validateTeamGrants P t = .ok u) :
    (t.memberList.map fun g => P.toLowercase g.email).Nodup ∧
      (t.groupList.map GroupGrant.group).Nodup := by
  obtain ⟨_, -, h⟩ := bind_eq_ok.mp h
  obtain ⟨_, hemails, hgroups⟩ := bind_eq_ok.mp h
  exact ⟨(validateEmails_eq_ok hemails).1, (validateGroups_eq_ok hgroups).1⟩

theorem validateProjects_eq_ok {ps : List ProjectConfig} {u : Unit}
    (h : validateProjects P ps = .ok u) : (ps.map ProjectConfig.slug).Nodup ∧
      ∀ p ∈ ps, ∀ i, p.alertmanagerIntervalSeconds = some i → 10 ≤ i ∧ i ≤ 86400 := by
  obtain ⟨_, hslugs, hps⟩ := bind_eq_ok.mp h
  refine ⟨?_, fun p hp i hi => ?_⟩
  · unfold validateProjectSlugs joinErrors at hslugs
    split at hslugs
    · exact (slugErrors_eq_nil ‹_›).1
    · cases hslugs
  · obtain ⟨_, hinterval, -⟩ := bind_eq_ok.mp (forM_eq_ok.mp hps p hp)
    rw [hi] at hinterval
    exact not_not.mp (rejectIf_eq_ok.mp hinterval)

theorem requireSection_eq_ok {α : Type} {source : ManagementSource} {declared found : Option α}
    {msg : String} (h : requireSection source declared msg = .ok found) :
    found = none ↔ source = .ui := by
  unfold requireSection at h
  split at h
  · cases h
    simp [*]
  · cases declared with
    | none => cases h
    | some x =>
      cases h
      simp [*]

theorem requireNotifications_eq_ok {u : Unit} (h : requireNotifications P settings file = .ok u)
    (hyaml : settings.notificationSource = .yaml) :
    ∃ n, file.notifications = some n ∧ n.validateStored P.parseUrl = .ok () := by
  rw [requireNotifications, if_pos hyaml] at h
  cases hn : file.notifications with
  | none => simp [hn] at h
  | some n =>
    rw [hn] at h
    exact ⟨n, rfl, h⟩

theorem parseDeserialized_eq_ok {labels : OrdMap String (OrdMap String String)} {raw : ConfigFile}
    (h : parseDeserialized P settings labels raw = .ok file) : file.Accepted P settings := by
  obtain ⟨_, -, h⟩ := bind_eq_ok.mp h
  obtain ⟨_, -, h⟩ := bind_eq_ok.mp h
  obtain ⟨projects, hprojects, h⟩ := bind_eq_ok.mp h
  obtain ⟨teams, hteams, h⟩ := bind_eq_ok.mp h
  obtain ⟨_, hnotifications, h⟩ := bind_eq_ok.mp h
  obtain ⟨_, hps, h⟩ := bind_eq_ok.mp h
  obtain ⟨_, hts, h⟩ := bind_eq_ok.mp h
  cases h
  obtain ⟨hslugs, hintervals⟩ := validateProjects_eq_ok hps
  obtain ⟨hnames, hgrants⟩ := validateTeamsFrom_eq_ok hts
  exact {
    projectsUi := requireSection_eq_ok hprojects
    teamsUi := requireSection_eq_ok hteams
    notifications := requireNotifications_eq_ok hnotifications
    slugs := hslugs
    intervals := hintervals
    names := hnames.1
    emails := fun t ht => (validateTeamGrants_eq_ok (hgrants t ht)).1
    groups := fun t ht => (validateTeamGrants_eq_ok (hgrants t ht)).2 }

theorem ParsedFile.accepted (parsed : ParsedFile P settings) : parsed.file.Accepted P settings := by
  obtain ⟨_, _, h⟩ := parsed.parsed
  exact parseDeserialized_eq_ok h

end

end Soika
