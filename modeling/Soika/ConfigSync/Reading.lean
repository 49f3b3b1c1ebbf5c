import Soika.ConfigSync.Expansion
import Soika.Domain.ConfigFile

/-! # Reading the configuration file

The sections that the file does not manage are discarded from the tree, the texts that
are left are expanded, and the tree is written out and parsed again. What is parsed is
discarded from once more.
-/

namespace Soika.ConfigSync

open Yaml

/-- Of `notifications`, what an environment that manages the service leaves to the file. -/
def keepProjectLabels (notifications : List (Yaml × Yaml)) : List (Yaml × Yaml) :=
  modifyAt "alertmanager" (mapMapping (retain "project_labels")) (retain "alertmanager" notifications)

/-- Ignore sections owned by the UI before interpreting or expanding their values. -/
def discardUiSections (settings : ManagementSettings) : Yaml → Yaml
  | .mapping map =>
    let map :=
      if settings.serviceSource = .env then
        modifyAt "notifications" (mapMapping keepProjectLabels) map
      else if settings.notificationSource ≠ .yaml then swapRemove "notifications" map
      else map
    let map := if settings.projectSource = .ui then swapRemove "projects" map else map
    let map := if settings.teamSource = .ui then swapRemove "teams" map else map
    .mapping map
  | v => v

/-- A structure of one field that has a default, deserialized from a value; null is an empty
mapping, other fields are ignored. -/
def structField {α : Type} (name : String) (field : Yaml → Option α) (default : α) :
    Yaml → Option α
  | .mapping entries =>
    match retain name entries with
    | [] => some default
    | [e] => field e.2
    | _ => none
  | .null => some default
  | .tagged _ v => structField name field default v
  | _ => none

/-- What the deserializer and the emitter of the YAML library do with the types of the program. -/
structure YamlCodec where
  /-- `from_value::<ConfigFile>` -/
  configFile : Yaml → Option ConfigFile
  /-- `BTreeMap<String, BTreeMap<String, String>>` -/
  projectLabels : Yaml → Option (OrdMap String (OrdMap String String))
  /-- `to_string`, and `from_str` of the text. -/
  reread : Yaml → Except Error Yaml

section

variable (P : Platform) (codec : YamlCodec) (env : String → Option String)
  (settings : ManagementSettings)

/-- `EnvNotifications`, of which only the labels are read. -/
def envNotifications : Yaml → Option (OrdMap String (OrdMap String String)) :=
  structField "alertmanager" (structField "project_labels" codec.projectLabels .empty) .empty

/-- The labels in the `notifications` that `parse` takes from the tree. -/
def takeProjectLabels (value : Yaml) : Except Error (OrdMap String (OrdMap String String)) :=
  match value.asMapping.bind (find "notifications") with
  | none => .ok .empty
  | some notifications =>
    match envNotifications codec notifications with
    | some labels => .ok labels
    | none => .error (.validation "invalid Alertmanager project labels")

/-- `parse`, from the tree of the text on. -/
def parseValue (value : Yaml) : Except Error ConfigFile := do
  let value := discardUiSections settings value
  let labels ← (if settings.serviceSource = .env then takeProjectLabels codec value else .ok .empty)
  let value :=
    if settings.serviceSource = .env then value.mapMapping (swapRemove "notifications") else value
  match codec.configFile value with
  | none =>
    .error (.validation "invalid configuration YAML (unknown field or invalid value)")
  | some file => parseDeserialized P settings labels file

/-- `read_configuration`, from the tree of the file on. -/
def readConfiguration (value : Yaml) : Except Error ConfigFile := do
  let value ← visit env (discardUiSections settings value)
  let value ← codec.reread value
  parseValue P codec settings value

end

end Soika.ConfigSync
