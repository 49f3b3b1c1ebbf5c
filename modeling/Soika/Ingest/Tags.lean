import Mathlib.Data.String.Basic
import Soika.Domain.Json
import Soika.Library.OrdMap

/-! # Tags of an event

The tags of a payload as a flat map, and the project-level rules that mute by them.
-/

namespace Soika

/-- `Number::to_string`; the text of a float is a parameter. -/
def Number.text (floatText : UInt64 → String) : Number → String
  | .posInt n => toString n.toNat
  | .negInt n => toString n.toInt
  | .float bits => floatText bits

/-- Render a scalar tag value as a string; non-scalars become empty. -/
def scalarStr (floatText : UInt64 → String) : Value → String
  | .string s => s
  | .number n => n.text floatText
  | .bool b => toString b
  | _ => ""

/-- Insert a pair only when both sides are non-empty. -/
def insertPair (out : OrdMap String String) (key value : String) : OrdMap String String :=
  if key ≠ "" ∧ value ≠ "" then out.insert key value else out

/-- An entry of the array form: a pair, or an object with `key` and `value`. -/
def insertEntry (floatText : UInt64 → String) (out : OrdMap String String) (entry : Value) :
    OrdMap String String :=
  match entry with
  | .array [key, value] => insertPair out (scalarStr floatText key) (scalarStr floatText value)
  | .object members =>
    let key := (((Value.object members).get "key").map (scalarStr floatText)).getD ""
    let value := (((Value.object members).get "value").map (scalarStr floatText)).getD ""
    insertPair out key value
  | _ => out

/-- `payload.tags` as a map, from either form. -/
def eventTags (floatText : UInt64 → String) (payload : Value) : OrdMap String String :=
  match payload.get "tags" with
  | some (.object members) =>
    members.foldl (fun out m => insertPair out m.1 (scalarStr floatText m.2)) .empty
  | some (.array entries) => entries.foldl (insertEntry floatText) .empty
  | _ => .empty

/-- A single `key=value` tag condition within a rule. -/
structure TagMatch where
  key : String
  value : String
  deriving DecidableEq

/-- A project-level rule that mutes notifications for events whose tags match. -/
structure TagMuteRule where
  tags : List TagMatch

/-- Every pair of the rule is among the tags; an empty rule never matches. -/
def TagMuteRule.matches (rule : TagMuteRule) (eventTags : OrdMap String String) : Bool :=
  if rule.tags.isEmpty then false
  else rule.tags.all fun t => eventTags.get t.key = some t.value

theorem TagMuteRule.matches_iff {rule : TagMuteRule} {eventTags : OrdMap String String} :
    rule.matches eventTags ↔
      rule.tags ≠ [] ∧ ∀ t ∈ rule.tags, eventTags.get t.key = some t.value := by
  rw [TagMuteRule.matches]
  split <;> simp_all

inductive TagEntry where
  | member (key : String) (value : Value)
  | pair (key value : Value)
  | record (key value : Value)

namespace TagEntry

def key : TagEntry → Value
  | member key _ => .string key
  | pair key _ => key
  | record key _ => key

def value : TagEntry → Value
  | member _ value => value
  | pair _ value => value
  | record _ value => value

end TagEntry

def TagEntry.ofValue : Value → Option TagEntry
  | .array [key, value] => some (.pair key value)
  | .object members =>
    some (.record (((Value.object members).get "key").getD .null)
      (((Value.object members).get "value").getD .null))
  | _ => none

/-- The entries of `tags`, in their order. -/
def tagEntries (payload : Value) : List TagEntry :=
  match payload.get "tags" with
  | some (.object members) => members.map fun m => .member m.1 m.2
  | some (.array entries) => entries.filterMap TagEntry.ofValue
  | _ => []

/-- The payload spells a pair of texts, and no later entry gives the key another text. -/
def Spelled (floatText : UInt64 → String) (payload : Value) (key value : String) : Prop :=
  ∃ before entry after, tagEntries payload = before ++ entry :: after ∧
    scalarStr floatText entry.key = key ∧ scalarStr floatText entry.value = value ∧
    ∀ e ∈ after, scalarStr floatText e.key = key → scalarStr floatText e.value = ""

section

variable (floatText : UInt64 → String)

def TagEntry.texts (entry : TagEntry) : Option (String × String) :=
  if scalarStr floatText entry.key ≠ "" ∧ scalarStr floatText entry.value ≠ "" then
    some (scalarStr floatText entry.key, scalarStr floatText entry.value)
  else none

theorem insertPair_texts (out : OrdMap String String) (entry : TagEntry) :
    insertPair out (scalarStr floatText entry.key) (scalarStr floatText entry.value) =
      out.extend (entry.texts floatText).toList := by
  rw [insertPair, TagEntry.texts]
  split <;> rfl

theorem insertEntry_eq (out : OrdMap String String) (v : Value) :
    insertEntry floatText out v =
      out.extend ((TagEntry.ofValue v).bind (TagEntry.texts floatText)).toList := by
  have hfield (v : Option Value) : scalarStr floatText (v.getD .null) =
      (v.map (scalarStr floatText)).getD "" := by cases v <;> rfl
  match v with
  | .object members =>
    rw [insertEntry, ← hfield, ← hfield]
    exact insertPair_texts floatText out (.record _ _)
  | .array [key, value] => exact insertPair_texts floatText out (.pair key value)
  | .array [] | .array [_] | .array (_ :: _ :: _ :: _) => rfl
  | .null | .bool _ | .number _ | .string _ => rfl

theorem foldl_extend {α : Type} (texts : α → Option (String × String)) (l : List α)
    (out : OrdMap String String) :
    l.foldl (fun out a => out.extend (texts a).toList) out = out.extend (l.filterMap texts) := by
  induction l generalizing out with
  | nil => rfl
  | cons a l ih =>
    rw [List.foldl_cons, ih, List.filterMap_cons]
    cases texts a <;> rfl

theorem eventTags_eq (payload : Value) :
    eventTags floatText payload =
      .ofList ((tagEntries payload).filterMap (TagEntry.texts floatText)) := by
  rw [eventTags, tagEntries]
  split
  · rename_i members _
    have hstep (out : OrdMap String String) (m : String × Value) :
        insertPair out m.1 (scalarStr floatText m.2) =
          out.extend (TagEntry.texts floatText (.member m.1 m.2)).toList :=
      insertPair_texts floatText out (.member m.1 m.2)
    simp only [hstep]
    rw [foldl_extend fun m : String × Value => TagEntry.texts floatText (.member m.1 m.2),
      List.filterMap_map]
    rfl
  · rename_i entries _
    rw [funext₂ (insertEntry_eq floatText), foldl_extend, List.filterMap_filterMap]
    rfl
  · rfl

theorem texts_eq_some {entry : TagEntry} {key value : String} :
    entry.texts floatText = some (key, value) ↔ (key ≠ "" ∧ value ≠ "") ∧
      scalarStr floatText entry.key = key ∧ scalarStr floatText entry.value = value := by
  rw [TagEntry.texts]
  split
  · simp only [Option.some.injEq, Prod.mk.injEq]
    constructor
    · rintro ⟨rfl, rfl⟩
      exact ⟨‹_›, rfl, rfl⟩
    · exact And.right
  · refine iff_of_false (by simp) ?_
    rintro ⟨hne, rfl, rfl⟩
    contradiction

theorem get_eventTags_iff {payload : Value} {key value : String} (hkey : key ≠ "")
    (hvalue : value ≠ "") :
    (eventTags floatText payload).get key = some value ↔ Spelled floatText payload key value := by
  have hempty : (OrdMap.empty : OrdMap String String).get key ≠ some value := by
    intro h
    cases h
  rw [eventTags_eq, OrdMap.ofList, OrdMap.get_extend_eq_some_iff, or_iff_left fun h => hempty h.2,
    Spelled]
  constructor
  · rintro ⟨before, after, hsplit, hlast⟩
    obtain ⟨front, rest, hentries, -, hrest⟩ := List.filterMap_eq_append_iff.mp hsplit
    obtain ⟨skipped, entry, back, rfl, -, hentry, rfl⟩ := List.filterMap_eq_cons_iff.mp hrest
    obtain ⟨-, hk, hv⟩ := (texts_eq_some floatText).mp hentry
    refine ⟨front ++ skipped, entry, back, by simp [hentries], hk, hv, fun e he hek => ?_⟩
    by_contra hne
    have htexts := (texts_eq_some floatText).mpr ⟨⟨hkey, hne⟩, hek, rfl⟩
    exact hlast (List.mem_map.mpr ⟨_, List.mem_filterMap.mpr ⟨e, he, htexts⟩, rfl⟩)
  · rintro ⟨before, entry, after, hentries, hk, hv, hlast⟩
    have htexts := (texts_eq_some floatText).mpr ⟨⟨hkey, hvalue⟩, hk, hv⟩
    refine ⟨before.filterMap (TagEntry.texts floatText),
      after.filterMap (TagEntry.texts floatText), ?_, fun hmem => ?_⟩
    · rw [hentries, List.filterMap_append, List.filterMap_cons_some htexts]
    · obtain ⟨⟨key', value'⟩, hpair, rfl⟩ := List.mem_map.mp hmem
      obtain ⟨e, he, htexts⟩ := List.mem_filterMap.mp hpair
      obtain ⟨hne, hek, hev⟩ := (texts_eq_some floatText).mp htexts
      exact hne.2 (hev.symm.trans (hlast e he hek))

end

end Soika
