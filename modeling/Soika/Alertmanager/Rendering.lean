import Soika.Alertmanager.Alert
import Soika.Alertmanager.Template

/-! # Accepted configurations and rendered alerts

A configuration is accepted when its templates can be rendered with sample values.
The alert names are accepted when they are not blank, and are rendered as templates
too: an alert of an issue is rendered exactly when the name in force is a template
that shows something for this issue.
-/

namespace Soika

/-- What an administrator configured and the server accepted: the channel, the names of the
alerts and the labels of the projects. -/
structure AcceptedSettings (parseUrl : String → Option Url) where
  config : AlertmanagerConfig
  configAccepted : ∃ (stored : NotificationConfig) (defaultUrl : Option String),
    stored.effective parseUrl defaultUrl = .ok ⟨config⟩
  names : AlertmanagerNames
  namesAccepted : ∃ given : AlertmanagerNames, given.normalized = .ok names
  projectLabels : OrdMap String (OrdMap String String)
  /-- The labels are read from the file when they are valid over the default ones. -/
  labelsAccepted : ∀ e ∈ projectLabels.entries,
    ({ AlertmanagerConfig.default with
      labels := AlertmanagerConfig.default.labels.extend e.2.entries }).validate parseUrl = .ok ()

variable {parseUrl : String → Option Url}

namespace AlertmanagerConfig

def Templated (map : OrdMap String String) : Prop := ∀ e ∈ map.entries, ∃ ps, Template e.2 ps

theorem templated_of_validateEntries {es : List (String × String)}
    (h : validateEntries es = .ok ()) : ∀ e ∈ es, ∃ ps, Template e.2 ps := by
  induction es with
  | nil => exact fun e he => absurd he List.not_mem_nil
  | cons e es ih =>
    obtain ⟨u, he, hes⟩ := bind_eq_ok.mp h
    refine List.forall_mem_cons.mpr ⟨?_, ih hes⟩
    unfold validateEntry at he
    split_ifs at he
    cases hr : renderTemplate e.2 sampleVariables with
    | error e => rw [hr] at he; cases he
    | ok out => exact template_of_renderTemplate hr

theorem templated_of_validateMap {map : OrdMap String String} (h : validateMap map = .ok ()) :
    Templated map := by
  unfold validateMap at h
  split_ifs at h
  exact templated_of_validateEntries h

theorem templated_of_validate {config : AlertmanagerConfig}
    (h : config.validate parseUrl = .ok ()) :
    Templated config.labels ∧ Templated config.annotations := by
  obtain ⟨_, -, h⟩ := bind_eq_ok.mp h
  obtain ⟨_, hlabels, h⟩ := bind_eq_ok.mp h
  obtain ⟨_, hannotations, -⟩ := bind_eq_ok.mp h
  exact ⟨templated_of_validateMap hlabels, templated_of_validateMap hannotations⟩

theorem validate_of_effective {stored : NotificationConfig} {defaultUrl : Option String}
    {config : AlertmanagerConfig} (h : stored.effective parseUrl defaultUrl = .ok ⟨config⟩) :
    config.validate parseUrl = .ok () := by
  obtain ⟨_, hvalid, hconfig⟩ := bind_eq_ok.mp h
  rw [Except.ok.inj hconfig] at hvalid
  exact hvalid

/-- The template of the alert name: of the severity, of the project or of the channel. -/
def nameTemplate (config : AlertmanagerConfig)
    (projectLabels : OrdMap String (OrdMap String String)) (slug : String)
    (names : AlertmanagerNames) : Option AlertSeverity → Option String
  | some severity => some (names.forSeverity severity)
  | none =>
    ((projectLabels.get slug).bind (·.get "alertname")).or (config.labels.get "alertname")

theorem get_forProject_alertname (config : AlertmanagerConfig)
    (projectLabels : OrdMap String (OrdMap String String)) (slug : String)
    (names : AlertmanagerNames) (severity : Option AlertSeverity) :
    (config.forProject projectLabels slug names severity).labels.get "alertname" =
      config.nameTemplate projectLabels slug names severity := by
  cases severity with
  | some severity =>
    rw [forProject, OrdMap.get_insert, if_neg (by decide), OrdMap.get_insert, if_pos rfl]
    rfl
  | none =>
    cases hl : projectLabels.get slug with
    | none => simp [forProject, nameTemplate, hl]
    | some labels => simp [forProject, nameTemplate, hl, OrdMap.get_extend]

theorem mem_forProject {config : AlertmanagerConfig}
    {projectLabels : OrdMap String (OrdMap String String)} {slug : String}
    {names : AlertmanagerNames} {severity : Option AlertSeverity} {e : String × String}
    (he : e ∈ (config.forProject projectLabels slug names severity).labels.entries) :
    e ∈ config.labels.entries ∨
      (∃ labels, projectLabels.get slug = some labels ∧ e ∈ labels.entries) ∨
      ∃ s, severity = some s ∧
        (e = ("alertname", names.forSeverity s) ∨ e = ("severity", s.asStr)) := by
  have hbase : ∀ {e : String × String}, e ∈ (config.forProject projectLabels slug names none).labels.entries →
      e ∈ config.labels.entries ∨
        ∃ labels, projectLabels.get slug = some labels ∧ e ∈ labels.entries := by
    intro e he
    unfold forProject at he
    cases hl : projectLabels.get slug with
    | none => rw [hl] at he; exact .inl he
    | some labels =>
      rw [hl] at he
      exact (OrdMap.mem_extend he).imp_right fun he => ⟨labels, rfl, he⟩
  cases severity with
  | none => exact (hbase he).imp_right .inl
  | some s =>
    rcases OrdMap.mem_insert_iff.mp he with rfl | ⟨he, -⟩
    · exact .inr (.inr ⟨s, rfl, .inr rfl⟩)
    rcases OrdMap.mem_insert_iff.mp he with rfl | ⟨he, -⟩
    · exact .inr (.inr ⟨s, rfl, .inl rfl⟩)
    · exact (hbase he).imp_right .inl

theorem forProject_annotations (config : AlertmanagerConfig)
    (projectLabels : OrdMap String (OrdMap String String)) (slug : String)
    (names : AlertmanagerNames) (severity : Option AlertSeverity) :
    (config.forProject projectLabels slug names severity).annotations = config.annotations := by
  unfold forProject
  cases severity <;> cases projectLabels.get slug <;> rfl

end AlertmanagerConfig

namespace AcceptedSettings

variable (a : AcceptedSettings parseUrl)

/-- The configuration the alerts of a project are rendered with. -/
def forProject (slug : String) (severity : Option AlertSeverity) : AlertmanagerConfig :=
  a.config.forProject a.projectLabels slug a.names severity

theorem templated_labels_annotations :
    AlertmanagerConfig.Templated a.config.labels ∧
      AlertmanagerConfig.Templated a.config.annotations := by
  obtain ⟨stored, defaultUrl, h⟩ := a.configAccepted
  exact AlertmanagerConfig.templated_of_validate (AlertmanagerConfig.validate_of_effective h)

theorem templated_projectLabels {slug : String} {labels : OrdMap String String}
    (h : a.projectLabels.get slug = some labels) : AlertmanagerConfig.Templated labels := by
  have hvalid := a.labelsAccepted _ (OrdMap.get_eq_some_iff.mp h)
  intro e he
  refine (AlertmanagerConfig.templated_of_validate hvalid).1 e (OrdMap.get_eq_some_iff.mp ?_)
  rw [OrdMap.get_extend, OrdMap.get_eq_some_iff.mpr he, Option.some_or]

theorem template_asStr (severity : AlertSeverity) : ∃ ps, Template severity.asStr ps := by
  cases severity <;>
    exact ⟨_, by decide, by decide, .text (by decide) (by decide)⟩

theorem templated_forProject {slug : String} {severity : Option AlertSeverity}
    {e : String × String} (he : e ∈ (a.forProject slug severity).labels.entries)
    (hne : e.1 ≠ "alertname") : ∃ ps, Template e.2 ps := by
  rcases AlertmanagerConfig.mem_forProject he with he | ⟨labels, hl, he⟩ | ⟨s, -, rfl | rfl⟩
  · exact a.templated_labels_annotations.1 e he
  · exact a.templated_projectLabels hl e he
  · exact absurd rfl hne
  · exact template_asStr s

/-- The name in force is a template and shows something for the issue. -/
def ShowsName (slug : String) (severity : Option AlertSeverity) (vars : OrdMap String String) :
    Prop :=
  ∃ name ps, a.config.nameTemplate a.projectLabels slug a.names severity = some name ∧
    Template name ps ∧ ∃ p ∈ ps, p.Visible vars

variable {a} {vars : OrdMap String String}

theorem exists_rendered_labels {slug : String} {severity : Option AlertSeverity} {name : String}
    {ps : List Piece} (hv : Complete vars)
    (hname : a.config.nameTemplate a.projectLabels slug a.names severity = some name)
    (hps : Template name ps) :
    ∃ rendered, (a.forProject slug severity).labels.mapM (renderTemplate · vars) = .ok rendered ∧
      rendered.get "alertname" = some (String.ofList (ps.flatMap (Piece.fill vars))) := by
  have hget : (a.forProject slug severity).labels.get "alertname" = some name :=
    (AlertmanagerConfig.get_forProject_alertname ..).trans hname
  have hall : ∀ e ∈ (a.forProject slug severity).labels.entries,
      ∃ out, renderTemplate e.2 vars = .ok out := by
    rintro ⟨key, value⟩ he
    rw [exists_renderTemplate_iff hv]
    by_cases hkey : key = "alertname"
    · subst hkey
      rw [OrdMap.get_eq_some_iff.mpr he] at hget
      exact ⟨ps, Option.some.inj hget ▸ hps⟩
    · exact a.templated_forProject he hkey
  obtain ⟨rendered, hr⟩ : ∃ rendered,
      (a.forProject slug severity).labels.mapM (renderTemplate · vars) = .ok rendered :=
    OrdMap.exists_mapM_iff.mpr hall
  obtain ⟨out, hout, hshown⟩ := OrdMap.get_mapM hr hget
  rw [renderTemplate_of_template hv hps] at hout
  exact ⟨rendered, hr, by rw [hshown, Except.ok.inj hout]⟩

theorem exists_renderContent_iff (hv : Complete vars) {slug : String}
    {severity : Option AlertSeverity} :
    (∃ content, renderContent (a.forProject slug severity) vars = .ok content) ↔
      a.ShowsName slug severity vars := by
  constructor
  · rintro ⟨⟨labels, annotations⟩, h⟩
    obtain ⟨rendered, issueId, projectId, hr, -, -, rfl, ⟨shown, hget, hblank⟩, -⟩ :=
      renderContent_eq_ok.mp h
    rw [OrdMap.get_insert, if_neg (by decide), OrdMap.get_insert, if_neg (by decide)] at hget
    obtain ⟨name, hname, hrendered⟩ := OrdMap.exists_get_of_mapM hr hget
    obtain ⟨ps, hps⟩ := template_of_renderTemplate hrendered
    rw [renderTemplate_of_template hv hps] at hrendered
    obtain rfl := Except.ok.inj hrendered
    exact ⟨name, ps, (AlertmanagerConfig.get_forProject_alertname ..).symm.trans hname, hps,
      trim_rendered_ne.mp hblank⟩
  · rintro ⟨name, ps, hname, hps, hvisible⟩
    obtain ⟨rendered, hr, hshown⟩ := exists_rendered_labels hv hname hps
    obtain ⟨issueId, hi⟩ := hv "issue_id" (by decide)
    obtain ⟨projectId, hp⟩ := hv "project_id" (by decide)
    obtain ⟨annotations, ha⟩ : ∃ annotations,
        (a.forProject slug severity).annotations.mapM (renderTemplate · vars) = .ok annotations := by
      refine OrdMap.exists_mapM_iff.mpr fun e he => (exists_renderTemplate_iff hv).mpr ?_
      rw [forProject, AlertmanagerConfig.forProject_annotations] at he
      exact a.templated_labels_annotations.2 e he
    refine ⟨(_, annotations), renderContent_eq_ok.mpr
      ⟨rendered, issueId, projectId, hr, hi, hp, rfl, ⟨_, ?_, trim_rendered_ne.mpr hvisible⟩, ha⟩⟩
    rw [OrdMap.get_insert, if_neg (by decide), OrdMap.get_insert, if_neg (by decide), hshown]

end AcceptedSettings

/-- The alert of an issue is rendered exactly when its name shows something for this issue, and
it does not end beyond the last instant. -/
theorem alert_renders_iff (a : AcceptedSettings parseUrl) (idText : Id → String)
    (baseUrl org : String) (project : ProjectRow) (issue : Issue) (trigger : String)
    (severity : Option AlertSeverity) (now : Timestamp) :
    (∃ alert, renderAlert (a.forProject project.slug severity)
        (variablesOf idText baseUrl org project issue trigger) now = some (.ok alert)) ↔
      a.ShowsName project.slug severity (variablesOf idText baseUrl org project issue trigger) ∧
        (secondsAfter now ALERT_TTL).isSome := by
  have hv : Complete (variablesOf idText baseUrl org project issue trigger) :=
    fun _ => exists_get_variablesOf
  rw [← AcceptedSettings.exists_renderContent_iff hv]
  constructor
  · rintro ⟨alert, h⟩
    unfold renderAlert at h
    split at h
    · cases h
    · rename_i labels annotations hcontent
      obtain ⟨endsAt, hends, -⟩ := Option.map_eq_some_iff.mp h
      exact ⟨⟨_, hcontent⟩, Option.isSome_iff_exists.mpr ⟨endsAt, hends⟩⟩
  · rintro ⟨⟨⟨labels, annotations⟩, hcontent⟩, hends⟩
    obtain ⟨endsAt, hends⟩ := Option.isSome_iff_exists.mp hends
    obtain ⟨url, hurl⟩ := hv "issue_url" (by decide)
    refine ⟨⟨labels, annotations, now, endsAt, url⟩, ?_⟩
    simp only [renderAlert, hcontent, hends, required, hurl]
    rfl

/-- `Url::parse` of the URL in the settings below. -/
def exampleUrl (url : String) : Option Url :=
  if url = "http://alertmanager:9093" then some ⟨"http", some "alertmanager", "", none, none, none⟩
  else none

def channelNamed (name : String) : AlertmanagerConfig where
  enabled := true
  url := "http://alertmanager:9093"
  labels := .ofList [("alertname", name)]
  annotations := .empty

def templatedNames : AlertmanagerNames :=
  { AlertmanagerNames.default with critical := "\x7b\x7b service \x7d\x7d down" }

def unknownPlaceholder : AcceptedSettings exampleUrl where
  config := channelNamed "SoikaIssue"
  configAccepted := ⟨⟨channelNamed "SoikaIssue"⟩, none, by decide⟩
  names := templatedNames
  namesAccepted := ⟨templatedNames, by decide⟩
  projectLabels := .empty
  labelsAccepted := nofun

def environmentName : AcceptedSettings exampleUrl where
  config := channelNamed "\x7b\x7b environment \x7d\x7d"
  configAccepted := ⟨⟨channelNamed "\x7b\x7b environment \x7d\x7d"⟩, none, by decide⟩
  names := AlertmanagerNames.default
  namesAccepted := ⟨AlertmanagerNames.default, by decide⟩
  projectLabels := .empty
  labelsAccepted := nofun

def exampleProject : ProjectRow where
  id := 1
  retentionEvents := 1000
  retentionDays := 0
  muted := false
  shortId := "web001"
  teamId := 2
  name := "Web"
  slug := "web"
  dsnPublicKey := "key"
  webhookUrl := none
  alertmanagerSeverity := some .critical
  alertmanagerInterval := none
  createdAt := .atSecond 0
  updatedAt := .atSecond 0
  orphanedAt := none

def exampleIssue : Issue where
  id := 3
  shortId := "iss001"
  projectId := 1
  fingerprint := "f"
  title := "ValueError"
  culprit := none
  level := none
  environment := none
  release := none
  status := .unresolved
  mutedAt := none
  mutedUntil := none
  muteThreshold := none
  muteWindowSeconds := none
  firstSeen := .atSecond 0
  lastSeen := .atSecond 0
  eventCount := 1
  createdAt := .atSecond 0
  updatedAt := .atSecond 0

def exampleIdText (id : Id) : String :=
  "00000000-0000-0000-0000-" ++
    String.ofList (List.replicate (12 - id) '0' ++ List.replicate id '1')

theorem exampleIdText_injective : Function.Injective exampleIdText := by
  have hcount : ∀ id, (exampleIdText id).toList.count '1' = id := by
    intro id
    unfold exampleIdText
    rw [String.toList_append, List.count_append, String.toList_ofList]
    simp [List.count_replicate]
  intro a b h
  rw [← hcount a, h, hcount b]

def exampleUuid : UuidText := ⟨exampleIdText, exampleIdText_injective⟩

theorem accepted_not_rendered :
    (¬ ∃ alert, renderAlert (unknownPlaceholder.forProject exampleProject.slug (some .critical))
      (variablesOf exampleIdText "https://soika" "Soika" exampleProject exampleIssue "new_issue")
      (.atSecond 0) = some (.ok alert)) ∧
    ¬ ∃ alert, renderAlert (environmentName.forProject exampleProject.slug none)
      (variablesOf exampleIdText "https://soika" "Soika" exampleProject exampleIssue "new_issue")
      (.atSecond 0) = some (.ok alert) := by
  have hplaceholder : renderAlert
      (unknownPlaceholder.forProject exampleProject.slug (some .critical))
      (variablesOf exampleIdText "https://soika" "Soika" exampleProject exampleIssue "new_issue")
      (.atSecond 0) =
        some (.error (.validation "unknown notification variable: service")) := by decide
  have hblank : renderAlert (environmentName.forProject exampleProject.slug none)
      (variablesOf exampleIdText "https://soika" "Soika" exampleProject exampleIssue "new_issue")
      (.atSecond 0) =
        some (.error (.validation "rendered alertname must not be empty")) := by decide
  exact ⟨by simp [hplaceholder], by simp [hblank]⟩

end Soika
