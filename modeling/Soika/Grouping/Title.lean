import Soika.Adapters.Issue
import Soika.Grouping.Characters

/-! # The title of a group

Events of one default group share their material, and the title of its issue is
refreshed with each of them. It stays as it is only where the material is the text
the title shows: a type or frames in the material leave the text out of it.
-/

namespace Soika

/-- The default material is the message or the exception value of the event. -/
def GroupsByText (event : NormalizedEvent) : Prop :=
  typeComponents event = [] ∧ frameComponents event = []

/-- All events of the default group of an event have its title, and a refresh of the title
with any of them leaves it. -/
def TitleStable (event : NormalizedEvent) : Prop :=
  ¬ event.hasCustomFingerprint → ∀ event', ¬ event'.hasCustomFingerprint →
    defaultMaterial event' = defaultMaterial event →
    titleFromNormalized event' = titleFromNormalized event ∧
      ∀ (B : Backend) (row : Issue) (input input' : IngestInput) (seenAt seenAt' : Timestamp),
        input.normalized = event → input'.normalized = event' →
        ((row.bump B (input.upsert eventGrouping seenAt)).bump B
            (input'.upsert eventGrouping seenAt')).title =
          (row.bump B (input.upsert eventGrouping seenAt)).title

section

variable {event event' : NormalizedEvent}

theorem defaultMaterial_begins (h : ¬ GroupsByText event) :
    "type:".toList <+: (defaultMaterial event).toList ∨
      "frame:".toList <+: (defaultMaterial event).toList := by
  unfold defaultMaterial
  cases hty : event.exceptionType.filter (· ≠ "") with
  | some ty =>
    have hcomp : typeComponents event = ["type:" ++ normalizeType ty] := by
      simp only [typeComponents, hty]
    refine .inl (List.IsPrefix.trans ?_ (by
      simp only [hcomp, List.singleton_append, List.isEmpty_cons]
      exact intercalate_cons_begins "\n" _ _))
    rw [String.toList_append]
    exact List.prefix_append _ _
  | none =>
    have hnil := typeComponents_eq_nil.mpr hty
    have hne : frameComponents event ≠ [] := fun hf => h ⟨hnil, hf⟩
    obtain ⟨s, rest, hs⟩ := List.exists_cons_of_ne_nil hne
    refine .inr (List.IsPrefix.trans (frameComponents_begins (hs ▸ List.mem_cons_self)) ?_)
    simp only [hnil, hs, List.nil_append, List.isEmpty_cons]
    exact intercalate_cons_begins "\n" s rest

/-- The text that an event without a type shows: message or exception value. -/
inductive ShowsText (event : NormalizedEvent) : Prop
  | message {msg : String} (hm : defaultMaterial event = "message:" ++ normalizeMessage msg)
      (ht : titleFromNormalized event = truncateTitle (normalizeMessage msg))
  | value {val : String} (hm : defaultMaterial event = "value:" ++ normalizeMessage val)
      (ht : titleFromNormalized event = truncateTitle (normalizeMessage val))
  | unknown (hm : defaultMaterial event = "")
      (ht : titleFromNormalized event = "Unknown error")

theorem showsText (h : GroupsByText event) : ShowsText event := by
  have hty := typeComponents_eq_nil.mp h.1
  have hmat : defaultMaterial event = "\n".intercalate (textComponents event) := by
    simp [defaultMaterial, h.1, h.2]
  cases hmsg : event.message.filter (· ≠ "") with
  | some msg =>
    refine @ShowsText.message event msg ?_ ?_
    · rw [hmat]
      simp only [textComponents, hmsg, String.intercalate_singleton]
    · simp only [titleFromNormalized, hty, hmsg]
  | none =>
    cases hval : event.exceptionValue.filter (· ≠ "") with
    | some val =>
      refine @ShowsText.value event val ?_ ?_
      · rw [hmat]
        simp only [textComponents, hmsg, hval, String.intercalate_singleton]
      · simp only [titleFromNormalized, hty, hmsg, hval]
    | none =>
      refine .unknown ?_ ?_
      · rw [hmat]
        simp only [textComponents, hmsg, hval, String.intercalate_nil]
      · simp only [titleFromNormalized, hty, hmsg, hval]

theorem groupsByText_of_material (h : GroupsByText event)
    (hm : defaultMaterial event' = defaultMaterial event) : GroupsByText event' := by
  by_contra h'
  have hhead := defaultMaterial_begins h'
  rw [hm] at hhead
  cases showsText h with
  | message hm' _ | value hm' _ | unknown hm' _ =>
    rw [hm'] at hhead
    rcases hhead with ⟨t, ht⟩ | ⟨t, ht⟩ <;> simp at ht

theorem title_eq_of_groupsByText (h : GroupsByText event)
    (hm : defaultMaterial event' = defaultMaterial event) :
    titleFromNormalized event' = titleFromNormalized event := by
  have hne : ∀ a b : String, "message:" ++ a ≠ "value:" ++ b := by
    intro a b he
    have := congrArg String.toList he
    simp at this
  cases showsText h with
  | message hm₁ ht₁ =>
    cases showsText (groupsByText_of_material h hm) with
    | message hm₂ ht₂ =>
      rw [hm₁, hm₂] at hm
      rw [ht₁, ht₂, String.append_right_inj _ |>.mp hm]
    | value hm₂ ht₂ => exact absurd (hm₂ ▸ hm₁ ▸ hm).symm (hne _ _)
    | unknown hm₂ ht₂ => exact absurd (congrArg String.toList (hm₂ ▸ hm₁ ▸ hm)) (by simp)
  | value hm₁ ht₁ =>
    cases showsText (groupsByText_of_material h hm) with
    | message hm₂ ht₂ => exact absurd (hm₂ ▸ hm₁ ▸ hm) (hne _ _)
    | value hm₂ ht₂ =>
      rw [hm₁, hm₂] at hm
      rw [ht₁, ht₂, String.append_right_inj _ |>.mp hm]
    | unknown hm₂ ht₂ => exact absurd (congrArg String.toList (hm₂ ▸ hm₁ ▸ hm)) (by simp)
  | unknown hm₁ ht₁ =>
    cases showsText (groupsByText_of_material h hm) with
    | message hm₂ ht₂ => exact absurd (congrArg String.toList (hm₂ ▸ hm₁ ▸ hm)) (by simp)
    | value hm₂ ht₂ => exact absurd (congrArg String.toList (hm₂ ▸ hm₁ ▸ hm)) (by simp)
    | unknown hm₂ ht₂ => rw [ht₁, ht₂]

/-- Where the material is not the text, two events of the group show different titles. -/
theorem exists_title_ne (h : ¬ GroupsByText event) :
    ∃ e₁ e₂ : NormalizedEvent, e₁.fingerprint = event.fingerprint ∧
      e₂.fingerprint = event.fingerprint ∧ defaultMaterial e₁ = defaultMaterial event ∧
      defaultMaterial e₂ = defaultMaterial event ∧
      titleFromNormalized e₁ ≠ titleFromNormalized e₂ := by
  have hne : (typeComponents event ++ frameComponents event).isEmpty = false := by
    rw [List.isEmpty_eq_false_iff]
    exact fun hnil => h (List.append_eq_nil_iff.mp hnil)
  have hmat : ∀ value message, defaultMaterial
      { event with exceptionValue := value, message := message } = defaultMaterial event := by
    intro value message
    have hty : typeComponents { event with exceptionValue := value, message := message } =
        typeComponents event := rfl
    have hfr : frameComponents { event with exceptionValue := value, message := message } =
        frameComponents event := rfl
    simp only [defaultMaterial, hty, hfr, hne]
    rfl
  have ha : (some "a").filter (fun s => decide (s ≠ "")) = some "a" := by decide
  have hb : (some "b").filter (fun s => decide (s ≠ "")) = some "b" := by decide
  cases hty : event.exceptionType.filter (· ≠ "") with
  | some ty =>
    refine ⟨{ event with exceptionValue := none }, { event with exceptionValue := some "a" },
      rfl, rfl, hmat _ _, hmat _ _, ?_⟩
    simp only [titleFromNormalized, hty, ha, Option.filter_none]
    intro he
    have := congrArg (fun s => s.toList.length) he
    simp at this
  | none =>
    refine ⟨{ event with message := some "a" }, { event with message := some "b" },
      rfl, rfl, hmat _ _, hmat _ _, ?_⟩
    simp only [titleFromNormalized, hty, ha, hb]
    decide

end

theorem title_stable_iff (event : NormalizedEvent) :
    TitleStable event ↔ event.hasCustomFingerprint ∨ GroupsByText event := by
  constructor
  · intro h
    by_contra hno
    push Not at hno
    obtain ⟨hcustom, htext⟩ := hno
    obtain ⟨e₁, e₂, hf₁, hf₂, hm₁, hm₂, hne⟩ := exists_title_ne htext
    have hcustom₁ : ¬ e₁.hasCustomFingerprint := by
      simpa only [NormalizedEvent.hasCustomFingerprint, hf₁] using hcustom
    have hcustom₂ : ¬ e₂.hasCustomFingerprint := by
      simpa only [NormalizedEvent.hasCustomFingerprint, hf₂] using hcustom
    exact hne ((h hcustom e₁ hcustom₁ hm₁).1.trans (h hcustom e₂ hcustom₂ hm₂).1.symm)
  · rintro (hcustom | htext) hdefault event' hdefault' hm
    · exact absurd hcustom hdefault
    · have ht := title_eq_of_groupsByText htext hm
      refine ⟨ht, ?_⟩
      rintro B row input input' seenAt seenAt' rfl rfl
      exact ht

def exceptionOf (value : String) : Value :=
  .object [("exception", .object [("values", .array
    [.object [("type", .string "Error"), ("value", .string value)]])])]

theorem title_not_stable : ¬ TitleStable (.fromValue (exceptionOf "disk full")) := by
  intro h
  have := (h (by decide) (.fromValue (exceptionOf "connection refused")) (by decide)
    (by decide)).1
  revert this
  decide

end Soika
